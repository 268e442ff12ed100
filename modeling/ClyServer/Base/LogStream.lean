import ClyServer.Base.FixedBuffer
import Mathlib.Data.Int.Basic

/-!
# The log stream (`base/LogStream.h`, `base/LogStream.cpp`)

Values are written into a buffer of 4000 bytes, or not at all. There are two tests.
A text goes through `FixedBuffer::append`, which takes it if it leaves a byte free.
A number is converted in place, behind the pointer, and the pointer moved after
it: the test is made before, on the largest size a number can have, and nothing
checks the stores themselves. They are checked here (`poke`), so that a store
outside the array is a fault and not a silent success.

`T` of the templates is any of the integer types; `%` and `/` on it round to zero,
and the value never leaves its type on the way down.
-/

namespace ClyServer

open ClyServer.Lib

/-- `const int kMaxNumericSize`. -/
def kMaxNumericSize : Nat := 48

/-- A C string: the bytes in front of the one that ends it. -/
structure CString where
  bytes : Bytes
  noNul : 0 ∉ bytes

/-! ## Raw stores -/

namespace FixedBuffer

variable {SIZE : Nat}

/-- `current()`, as a position. -/
def current (b : FixedBuffer SIZE) : Nat := b.cur

/-- `add(len)`. -/
def add (b : FixedBuffer SIZE) (len : Nat) : Checked (FixedBuffer SIZE) :=
  if h : b.cur + len ≤ SIZE then return { b with cur := b.cur + len, cur_le := h }
  else .error .outOfRange

/-- `*p = c`. -/
def poke (b : FixedBuffer SIZE) (p : Nat) (c : UInt8) : Checked (FixedBuffer SIZE) :=
  if p < SIZE then
    return { b with
      data := b.data.set p c
      length_data := by rw [List.length_set, b.length_data] }
  else .error .outOfRange

/-- Bytes stored one after the other. -/
def pokes (b : FixedBuffer SIZE) (p : Nat) : Bytes → Checked (FixedBuffer SIZE)
  | [] => return b
  | c :: cs => do
    let b ← b.poke p c
    b.pokes (p + 1) cs

/-- `std::reverse(first, last)`. -/
def reverse (b : FixedBuffer SIZE) (first last : Nat) : Checked (FixedBuffer SIZE) :=
  if h : first ≤ last ∧ last ≤ SIZE then
    return { b with
      data := overwrite b.data first (slice b.data first last).reverse
      length_data := by
        have hlast : last ≤ b.data.length := b.length_data.symm ▸ h.2
        rw [length_overwrite, b.length_data]
        rw [List.length_reverse, length_slice hlast]
        omega }
  else .error .outOfRange

end FixedBuffer

/-! ## Numbers -/

/-- An entry of a table of characters. -/
def charAt (table : Bytes) (i : Int) : Checked UInt8 :=
  if 0 ≤ i then
    match table[i.toNat]? with
    | some c => return c
    | none => .error .outOfRange
  else .error .outOfRange

def digits : Bytes := ascii "9876543210123456789"

/-- `zero[lsd]`: the table is read to both sides of its middle. -/
def zero (lsd : Int) : Checked UInt8 := charAt digits (9 + lsd)

def digitsHex : Bytes := ascii "0123456789ABCDEF"

theorem natAbs_tdiv_lt {base i : Int} (hbase : 1 < base) (h : i.tdiv base ≠ 0) :
    (i.tdiv base).natAbs < i.natAbs := by
  have hi : i ≠ 0 := by
    rintro rfl
    exact h (Int.zero_tdiv base)
  rw [Int.natAbs_tdiv]
  exact Nat.div_lt_self (Int.natAbs_pos.mpr hi) (by omega)

/-- The loop of `convert` and `convertHex`: the digits are stored from the least
significant one on. -/
def digitLoop {SIZE : Nat} {base : Int} (hbase : 1 < base) (digit : Int → Checked UInt8)
    (b : FixedBuffer SIZE) (p : Nat) (i : Int) : Checked (FixedBuffer SIZE × Nat) := do
  let c ← digit (i.tmod base)
  let b ← b.poke p c
  if _h : i.tdiv base ≠ 0 then digitLoop hbase digit b (p + 1) (i.tdiv base)
  else return (b, p + 1)
termination_by i.natAbs
decreasing_by exact natAbs_tdiv_lt hbase _h

/-- `convert(buf, value)`: the new memory and the length of the text. -/
def convert {SIZE : Nat} (b : FixedBuffer SIZE) (buf : Nat) (value : Int) :
    Checked (FixedBuffer SIZE × Nat) := do
  let (b, p) ← digitLoop (show (1 : Int) < 10 by decide) zero b buf value
  let (b, p) ← if value < 0 then (b.poke p 45).map (·, p + 1) else pure (b, p)
  let b ← b.poke p 0
  let b ← b.reverse buf p
  return (b, p - buf)

/-- `convertHex(buf, value)`. -/
def convertHex {SIZE : Nat} (b : FixedBuffer SIZE) (buf : Nat) (value : UInt64) :
    Checked (FixedBuffer SIZE × Nat) := do
  let (b, p) ← digitLoop (show (1 : Int) < 16 by decide) (charAt digitsHex) b buf value.toNat
  let b ← b.poke p 0
  let b ← b.reverse buf p
  return (b, p - buf)

/-- An integer of one of the types the stream takes. -/
inductive Integer where
  | short (v : Int16)
  | unsignedShort (v : UInt16)
  | int (v : Int32)
  | unsignedInt (v : UInt32)
  | long (v : Int64)
  | unsignedLong (v : UInt64)
  | longLong (v : Int64)
  | unsignedLongLong (v : UInt64)

/-- Its value. The casts of `short` and `unsigned short` keep it. -/
def Integer.value : Integer → Int
  | short v => v.toInt
  | unsignedShort v => v.toNat
  | int v => v.toInt
  | unsignedInt v => v.toNat
  | long v => v.toInt
  | unsignedLong v => v.toNat
  | longLong v => v.toInt
  | unsignedLongLong v => v.toNat

/-- What `snprintf(_, kMaxNumericSize, "%.12g", v)` makes of a double: a text, which
is shorter than the space given to it. -/
structure DoubleText where
  bytes : Bytes
  fits : bytes.length < kMaxNumericSize

/-! ## The stream -/

structure LogStream where
  buffer : FixedBuffer kSmallBuffer

/-- A value streamed into a log record. `unsigned char*` is read as `char*`, `float` as
`double`, and a `Fmt`, a `T` and a `SourceFile` go through `append(data, len)`. -/
inductive Insertion where
  | bool (v : Bool)
  | char (v : UInt8)
  | cstring (str : Option CString)
  | string (v : Bytes)
  | append (data : Bytes)
  | integer (v : Integer)
  | pointer (p : UInt64)
  | double (v : DoubleText)

namespace LogStream

/-- `LogStream()`, in memory that held `data`. -/
def init (data : { data : Bytes // data.length = kSmallBuffer }) : LogStream :=
  ⟨.new data.1 data.2⟩

/-- `buffer_.append(buf, len)`. -/
def appendText (s : LogStream) (buf : Bytes) : LogStream := ⟨s.buffer.append buf⟩

/-- `formatInteger(v)`. -/
def formatInteger (s : LogStream) (v : Int) : Checked LogStream :=
  if s.buffer.avail ≥ kMaxNumericSize then do
    let (b, len) ← convert s.buffer s.buffer.current v
    let b ← b.add len
    return ⟨b⟩
  else return s

/-- `operator<<(const void*)`. -/
def insertPointer (s : LogStream) (p : UInt64) : Checked LogStream :=
  if s.buffer.avail ≥ kMaxNumericSize then do
    let buf := s.buffer.current
    let b ← s.buffer.poke buf 48
    let b ← b.poke (buf + 1) 120
    let (b, len) ← convertHex b (buf + 2) p
    let b ← b.add (len + 2)
    return ⟨b⟩
  else return s

/-- `operator<<(double)`. -/
def insertDouble (s : LogStream) (v : DoubleText) : Checked LogStream :=
  if s.buffer.avail ≥ kMaxNumericSize then do
    let b ← s.buffer.pokes s.buffer.current (v.bytes ++ [0])
    let b ← b.add v.bytes.length
    return ⟨b⟩
  else return s

/-- `operator<<`. -/
def insert (s : LogStream) : Insertion → Checked LogStream
  | .bool v => return s.appendText (ascii (if v then "1" else "0"))
  | .char v => return s.appendText [v]
  | .cstring (some str) => return s.appendText str.bytes
  | .cstring none => return s.appendText (ascii "(NULL)")
  | .string v => return s.appendText v
  | .append data => return s.appendText data
  | .integer v => s.formatInteger v.value
  | .pointer p => s.insertPointer p
  | .double v => s.insertDouble v

/-- `s << v₁ << v₂ << …`. -/
def insertAll (s : LogStream) : List Insertion → Checked LogStream
  | [] => return s
  | v :: vs => do
    let s ← s.insert v
    s.insertAll vs

end LogStream

end ClyServer
