import ClyServer.Base.Types
import ClyServer.Lib.Slice

/-!
# The fixed buffer (`base/LogStream.h`)

An array of `SIZE` bytes and a pointer into it. The array's size and the
pointer's range are part of the type, so no operation can write behind the end;
the bytes behind the pointer are whatever was stored there before, and
`contents`, the bytes in front of it, is what a reader is given. `reset` moves
the pointer only.
-/

namespace ClyServer

open ClyServer.Lib

/-- `FixedBuffer<SIZE>`. -/
structure FixedBuffer (SIZE : Nat) where
  data : Bytes
  cur : Nat
  length_data : data.length = SIZE
  cur_le : cur ≤ SIZE

/-- `kSmallBuffer`. -/
def kSmallBuffer : Nat := 4000

/-- `kLargeBuffer`. -/
def kLargeBuffer : Nat := 4000 * 1000

namespace FixedBuffer

variable {SIZE : Nat}

/-- `FixedBuffer()`, in memory that held `data`: nothing is stored. -/
def new (data : Bytes) (h : data.length = SIZE) : FixedBuffer SIZE where
  data := data
  cur := 0
  length_data := h
  cur_le := Nat.zero_le SIZE

def length (b : FixedBuffer SIZE) : Nat := b.cur

def avail (b : FixedBuffer SIZE) : Nat := SIZE - b.cur

/-- `append(buf, len)`: all of it, or nothing if it does not leave a byte free. -/
def append (b : FixedBuffer SIZE) (buf : Bytes) : FixedBuffer SIZE :=
  if h : buf.length < b.avail then
    { data := overwrite b.data b.cur buf
      cur := b.cur + buf.length
      length_data := by
        have hfit : b.cur + buf.length ≤ b.data.length := by
          rw [b.length_data]
          unfold avail at h
          omega
        rw [length_overwrite hfit, b.length_data]
      cur_le := by
        unfold avail at h
        omega }
  else b

def reset (b : FixedBuffer SIZE) : FixedBuffer SIZE :=
  { b with cur := 0, cur_le := Nat.zero_le SIZE }

/-- `bzero()`. It leaves the pointer where it is. -/
def bzero (b : FixedBuffer SIZE) : FixedBuffer SIZE :=
  { b with data := List.replicate SIZE 0, length_data := List.length_replicate }

/-- The bytes `data()` and `length()` delimit. -/
def contents (b : FixedBuffer SIZE) : Bytes := slice b.data 0 b.cur

/-! ## What the operations do to the contents -/

variable {b : FixedBuffer SIZE} {buf : Bytes}

theorem contents_append (h : buf.length < b.avail) :
    (b.append buf).contents = b.contents ++ buf := by
  have hcur : b.cur ≤ b.data.length := by
    rw [b.length_data]
    exact b.cur_le
  simp only [append, dif_pos h, contents]
  exact slice_overwrite_append (Nat.zero_le _) hcur

theorem contents_eq_nil (h : b.cur = 0) : b.contents = [] := by
  rw [contents, h, slice_self]

/-- An empty buffer has room for anything smaller than itself. -/
theorem lt_avail (h : b.cur = 0) (hbuf : buf.length < SIZE) : buf.length < b.avail := by
  rw [avail, h]
  exact hbuf

end FixedBuffer

end ClyServer
