import ClyServer.Lib.ByteOrder
import ClyServer.Net.BufferQueue

/-!
# Integers in a buffer (`net/Buffer.h`, `net/Endian.h`)

`appendInt64` and its siblings put an integer into the buffer in network order, and
`readInt64` and its siblings take one out. The host's byte order is a parameter:
on the way in the integer is converted so that its bytes in memory are the
big-endian ones, on the way out it is converted back. The four widths do the same,
except that a single byte is not converted.

`integers_roundTrip` is the law of the interleavings: appends and reads in any
order, as long as the reads ask for the widths that were appended, are a queue of
integers.
-/

namespace ClyServer.Net

open ClyServer.Lib

/-! ## Conversions -/

namespace sockets

def hostToNetwork64 (host : ByteOrder) (host64 : UInt64) : UInt64 :=
  .ofBitVec (toBig (n := 8) host host64.toBitVec)

def hostToNetwork32 (host : ByteOrder) (host32 : UInt32) : UInt32 :=
  .ofBitVec (toBig (n := 4) host host32.toBitVec)

def hostToNetwork16 (host : ByteOrder) (host16 : UInt16) : UInt16 :=
  .ofBitVec (toBig (n := 2) host host16.toBitVec)

def networkToHost64 (host : ByteOrder) (net64 : UInt64) : UInt64 :=
  .ofBitVec (ofBig (n := 8) host net64.toBitVec)

def networkToHost32 (host : ByteOrder) (net32 : UInt32) : UInt32 :=
  .ofBitVec (ofBig (n := 4) host net32.toBitVec)

def networkToHost16 (host : ByteOrder) (net16 : UInt16) : UInt16 :=
  .ofBitVec (ofBig (n := 2) host net16.toBitVec)

end sockets

namespace Buffer

/-! ## Putting integers in and taking them out -/

/-- The bytes `[peek(), peek() + n)`, behind the assertion that there are as many. -/
def peekBytes (b : Buffer) (n : Nat) : Checked Bytes := do
  check (n ≤ b.readableBytes) .peekInt
  return slice b.buffer b.peek (b.peek + n)

section Operations

variable (host : ByteOrder) (b : Buffer)

def appendInt64 (x : Int64) : Checked Buffer :=
  let be64 := (sockets.hostToNetwork64 host x.toUInt64).toInt64
  b.append (represent (n := 8) host be64.toBitVec)

def appendInt32 (x : Int32) : Checked Buffer :=
  let be32 := (sockets.hostToNetwork32 host x.toUInt32).toInt32
  b.append (represent (n := 4) host be32.toBitVec)

def appendInt16 (x : Int16) : Checked Buffer :=
  let be16 := (sockets.hostToNetwork16 host x.toUInt16).toInt16
  b.append (represent (n := 2) host be16.toBitVec)

def appendInt8 (x : Int8) : Checked Buffer := b.append (represent (n := 1) host x.toBitVec)

def prependInt64 (x : Int64) : Checked Buffer :=
  let be64 := (sockets.hostToNetwork64 host x.toUInt64).toInt64
  b.prepend (represent (n := 8) host be64.toBitVec)

def prependInt32 (x : Int32) : Checked Buffer :=
  let be32 := (sockets.hostToNetwork32 host x.toUInt32).toInt32
  b.prepend (represent (n := 4) host be32.toBitVec)

def prependInt16 (x : Int16) : Checked Buffer :=
  let be16 := (sockets.hostToNetwork16 host x.toUInt16).toInt16
  b.prepend (represent (n := 2) host be16.toBitVec)

def prependInt8 (x : Int8) : Checked Buffer := b.prepend (represent (n := 1) host x.toBitVec)

def peekInt64 : Checked Int64 := do
  let be64 := Int64.ofBitVec (load host 8 (← b.peekBytes 8))
  return (sockets.networkToHost64 host be64.toUInt64).toInt64

def peekInt32 : Checked Int32 := do
  let be32 := Int32.ofBitVec (load host 4 (← b.peekBytes 4))
  return (sockets.networkToHost32 host be32.toUInt32).toInt32

def peekInt16 : Checked Int16 := do
  let be16 := Int16.ofBitVec (load host 2 (← b.peekBytes 2))
  return (sockets.networkToHost16 host be16.toUInt16).toInt16

def peekInt8 : Checked Int8 := do
  return .ofBitVec (load host 1 (← b.peekBytes 1))

/-- `readIntNN()`: the integer, and the buffer behind it. -/
def readInt {α : Type} (peekInt : Checked α) (size : Nat) : Checked (α × Buffer) := do
  let result ← peekInt
  let b ← b.retrieve size
  return (result, b)

def readInt64 : Checked (Int64 × Buffer) := b.readInt (b.peekInt64 host) 8

def readInt32 : Checked (Int32 × Buffer) := b.readInt (b.peekInt32 host) 4

def readInt16 : Checked (Int16 × Buffer) := b.readInt (b.peekInt16 host) 2

def readInt8 : Checked (Int8 × Buffer) := b.readInt (b.peekInt8 host) 1

end Operations

/-- The widths. -/
inductive IntWidth where
  | int8 | int16 | int32 | int64
  deriving DecidableEq, Repr

/-- An integer of one of the widths. -/
inductive IntValue where
  | int8 (x : Int8)
  | int16 (x : Int16)
  | int32 (x : Int32)
  | int64 (x : Int64)
  deriving DecidableEq, Repr

/-- The number of bytes, `sizeof(intNN_t)`. -/
def IntWidth.size : IntWidth → Nat
  | int8 => 1
  | int16 => 2
  | int32 => 4
  | int64 => 8

namespace IntValue

def width : IntValue → IntWidth
  | int8 _ => .int8
  | int16 _ => .int16
  | int32 _ => .int32
  | int64 _ => .int64

def toInt : IntValue → Int
  | int8 x => x.toInt
  | int16 x => x.toInt
  | int32 x => x.toInt
  | int64 x => x.toInt

/-- The big-endian bytes of the integer in two's complement. -/
def encode (v : IntValue) : Bytes :=
  represent .big (BitVec.ofInt (8 * v.width.size) v.toInt)

@[simp] theorem length_encode (v : IntValue) : v.encode.length = v.width.size :=
  length_represent ..

/-- `appendIntNN(x)`. -/
def append (host : ByteOrder) (b : Buffer) : IntValue → Checked Buffer
  | int8 x => b.appendInt8 host x
  | int16 x => b.appendInt16 host x
  | int32 x => b.appendInt32 host x
  | int64 x => b.appendInt64 host x

/-- `prependIntNN(x)`. -/
def prepend (host : ByteOrder) (b : Buffer) : IntValue → Checked Buffer
  | int8 x => b.prependInt8 host x
  | int16 x => b.prependInt16 host x
  | int32 x => b.prependInt32 host x
  | int64 x => b.prependInt64 host x

end IntValue

/-- `readIntNN()`. -/
def IntWidth.read (host : ByteOrder) (b : Buffer) : IntWidth → Checked (IntValue × Buffer)
  | int8 => (b.readInt8 host).map fun p => (.int8 p.1, p.2)
  | int16 => (b.readInt16 host).map fun p => (.int16 p.1, p.2)
  | int32 => (b.readInt32 host).map fun p => (.int32 p.1, p.2)
  | int64 => (b.readInt64 host).map fun p => (.int64 p.1, p.2)

/-! ## What they do to the bytes -/

section Encoding

variable {n : Nat} (host : ByteOrder)

/-- The bytes in memory of a converted integer are its encoding. -/
theorem represent_network (x : BitVec (8 * n)) :
    represent host (toBig host x) = represent .big (BitVec.ofInt (8 * n) x.toInt) := by
  rw [represent_toBig, BitVec.ofInt_toInt]

/-- An encoding loaded and converted back is the integer. -/
theorem load_network (x : BitVec (8 * n)) :
    ofBig host (load host n (represent .big (BitVec.ofInt (8 * n) x.toInt))) = x := by
  rw [BitVec.ofInt_toInt, ofBig_load]

/-- One byte is the same in either order. -/
theorem represent_byte (x : BitVec (8 * 1)) :
    represent host x = represent .big (BitVec.ofInt (8 * 1) x.toInt) := by
  rw [BitVec.ofInt_toInt]
  cases host <;> rfl

theorem load_byte (x : BitVec (8 * 1)) :
    load host 1 (represent .big (BitVec.ofInt (8 * 1) x.toInt)) = x := by
  rw [← represent_byte host, load_represent]

end Encoding

variable {host : ByteOrder} {b : Buffer}

/-- Whatever the host's order, the bytes appended are the encoding. -/
theorem IntValue.append_eq (host : ByteOrder) (b : Buffer) (v : IntValue) :
    v.append host b = b.append v.encode := by
  cases v with
  | int8 x => exact congrArg b.append (represent_byte host x.toBitVec)
  | int16 x => exact congrArg b.append (represent_network (n := 2) host x.toBitVec)
  | int32 x => exact congrArg b.append (represent_network (n := 4) host x.toBitVec)
  | int64 x => exact congrArg b.append (represent_network (n := 8) host x.toBitVec)

theorem IntValue.prepend_eq (host : ByteOrder) (b : Buffer) (v : IntValue) :
    v.prepend host b = b.prepend v.encode := by
  cases v with
  | int8 x => exact congrArg b.prepend (represent_byte host x.toBitVec)
  | int16 x => exact congrArg b.prepend (represent_network (n := 2) host x.toBitVec)
  | int32 x => exact congrArg b.prepend (represent_network (n := 4) host x.toBitVec)
  | int64 x => exact congrArg b.prepend (represent_network (n := 8) host x.toBitVec)

theorem peekBytes_spec (h : b.Wf) {front rest : Bytes} (hread : b.readable = front ++ rest) :
    b.peekBytes front.length = .ok front := by
  have hlen := congrArg List.length hread
  rw [h.length_readable, List.length_append] at hlen
  have hle := h.reader_le
  have hfront : slice b.buffer b.peek (b.peek + front.length) = front := by
    unfold readableBytes at hlen
    rw [slice_take (k := b.writerIndex) (by unfold peek; omega), Nat.add_sub_cancel_left]
    change b.readable.take front.length = front
    rw [hread, List.take_left]
  rw [peekBytes, check_pos (by omega), ok_bind, hfront]
  rfl

/-- A read, once what it sees and what it leaves are known. -/
theorem readInt_of_peek {α : Type} (toValue : α → IntValue) {peekInt : Checked α} {x : α}
    {size : Nat} {b' : Buffer} (hpeek : peekInt = .ok x) (hb' : b.retrieve size = .ok b') :
    (b.readInt peekInt size).map (fun p => (toValue p.1, p.2)) = .ok (toValue x, b') := by
  simp only [readInt, hpeek, hb', ok_bind, pure_eq_ok]
  rfl

/-- A read where an encoding stands first answers the integer and leaves the rest. -/
theorem read_spec (host : ByteOrder) (h : b.Wf) (v : IntValue) {rest : Bytes}
    (hread : b.readable = v.encode ++ rest) :
    ∃ b', v.width.read host b = .ok (v, b') ∧ b'.Wf ∧ b'.readable = rest := by
  have hbytes := peekBytes_spec h hread
  rw [IntValue.length_encode] at hbytes
  have hlen := congrArg List.length hread
  rw [h.length_readable, List.length_append, IntValue.length_encode] at hlen
  have hroom : v.width.size ≤ b.readableBytes := by omega
  obtain ⟨b', hb', hbec⟩ := retrieve_spec h hroom
  have hrest : b'.readable = rest := by
    rw [hbec.holds, hread, List.drop_left' (IntValue.length_encode v)]
  refine ⟨b', ?_, hbec.wf, hrest⟩
  cases v with
  | int8 x =>
    have hpeek : b.peekInt8 host = .ok x := by
      rw [peekInt8, show b.peekBytes 1 = _ from hbytes]
      exact congrArg (fun bits => (Except.ok (Int8.ofBitVec bits) : Checked Int8))
        (load_byte host x.toBitVec)
    exact readInt_of_peek .int8 hpeek hb'
  | int16 x =>
    have hpeek : b.peekInt16 host = .ok x := by
      rw [peekInt16, show b.peekBytes 2 = _ from hbytes]
      exact congrArg (fun bits => (Except.ok (Int16.ofBitVec bits) : Checked Int16))
        (load_network (n := 2) host x.toBitVec)
    exact readInt_of_peek .int16 hpeek hb'
  | int32 x =>
    have hpeek : b.peekInt32 host = .ok x := by
      rw [peekInt32, show b.peekBytes 4 = _ from hbytes]
      exact congrArg (fun bits => (Except.ok (Int32.ofBitVec bits) : Checked Int32))
        (load_network (n := 4) host x.toBitVec)
    exact readInt_of_peek .int32 hpeek hb'
  | int64 x =>
    have hpeek : b.peekInt64 host = .ok x := by
      rw [peekInt64, show b.peekBytes 8 = _ from hbytes]
      exact congrArg (fun bits => (Except.ok (Int64.ofBitVec bits) : Checked Int64))
        (load_network (n := 8) host x.toBitVec)
    exact readInt_of_peek .int64 hpeek hb'

/-! ## Interleavings -/

/-- A call on the stream of integers. -/
inductive IntCall where
  | append (v : IntValue)
  | read (w : IntWidth)
  deriving DecidableEq, Repr

/-- A buffer, the integers appended so far and those the reads have answered. -/
structure IntStream where
  buf : Buffer
  appended : List IntValue
  answers : List IntValue

/-- The calls the law is about: the next read has the width of the first integer that
was appended and not yet read. -/
def IntStream.MayCall (s : IntStream) : IntCall → Prop
  | .append _ => True
  | .read w => (s.appended[s.answers.length]?).map IntValue.width = some w

instance (s : IntStream) : (call : IntCall) → Decidable (s.MayCall call)
  | .append _ => inferInstanceAs (Decidable True)
  | .read w => inferInstanceAs (Decidable (_ = some w))

def IntStream.call (host : ByteOrder) (s : IntStream) : IntCall → Checked IntStream
  | .append v => do
    let buf ← v.append host s.buf
    return { s with buf, appended := s.appended ++ [v] }
  | .read w => do
    let (v, buf) ← w.read host s.buf
    return { s with buf, answers := s.answers ++ [v] }

/-- A buffer used as a stream of integers. -/
def intStream (host : ByteOrder) : System IntStream IntCall Fault where
  enabled := IntStream.MayCall
  step := IntStream.call host

instance (host : ByteOrder) (s : IntStream) (call : IntCall) :
    Decidable ((intStream host).enabled s call) := inferInstanceAs (Decidable (s.MayCall call))

/-- The integers not read yet. -/
def IntStream.unread (s : IntStream) : List IntValue := s.appended.drop s.answers.length

/-- The answers are the integers appended, in order, and the buffer holds the encodings
of those that are left. -/
structure IntStream.Tracks (s : IntStream) : Prop where
  wf : s.buf.Wf
  answered : s.answers <+: s.appended
  holds : s.buf.readable = s.unread.flatMap IntValue.encode

theorem IntStream.Tracks.call {s : IntStream} (h : s.Tracks) {call : IntCall}
    (hmay : s.MayCall call) : ∃ u, s.call host call = .ok u ∧ u.Tracks := by
  have hle : s.answers.length ≤ s.appended.length := h.answered.length_le
  cases call with
  | append v =>
    obtain ⟨buf, hbuf, hbec⟩ := append_spec h.wf v.encode
    refine ⟨{ s with buf, appended := s.appended ++ [v] }, ?_, hbec.wf,
      h.answered.trans (List.prefix_append ..), ?_⟩
    · simp only [IntStream.call, IntValue.append_eq, hbuf, ok_bind, pure_eq_ok]
    · rw [hbec.holds, h.holds, unread, unread, List.drop_append_of_le_length hle,
        List.flatMap_append, List.flatMap_singleton]
  | read w =>
    obtain ⟨v, hv, hw⟩ := Option.map_eq_some_iff.mp hmay
    subst hw
    obtain ⟨hlt, hget⟩ := List.getElem?_eq_some_iff.mp hv
    have hunread : s.unread = v :: s.appended.drop (s.answers.length + 1) := by
      rw [unread, List.drop_eq_getElem_cons hlt, hget]
    have hread := h.holds
    rw [hunread, List.flatMap_cons] at hread
    obtain ⟨buf, hbuf, hwf, hrest⟩ := read_spec host h.wf v hread
    refine ⟨{ s with buf, answers := s.answers ++ [v] }, ?_, hwf, ?_, ?_⟩
    · simp only [IntStream.call, hbuf, ok_bind, pure_eq_ok]
    · obtain ⟨rest, happended⟩ := h.answered
      have htail : rest = s.unread := by
        rw [unread, ← happended, List.drop_left]
      refine ⟨s.appended.drop (s.answers.length + 1), ?_⟩
      rw [List.append_assoc, List.singleton_append, ← hunread, ← htail, happended]
    · rw [hrest, unread, List.length_append, List.length_singleton]

/-- **Integer framing round-trips.** On either kind of host: from an empty buffer, in
every interleaving of appends with reads that ask for the widths appended, no call
fails, the reads answer the integers appended, and the readable bytes are at all
times the big-endian encodings of those not yet read. And an integer prepended where
there is room for it is read back, with the bytes that were there left behind it. -/
theorem integers_roundTrip (host : ByteOrder) :
    (∀ b : Buffer, b.Wf → b.readable = [] → ∀ calls r,
      (intStream host).Run ⟨b, [], []⟩ calls r →
        ∃ s, r = .ok s ∧ s.answers <+: s.appended ∧
          s.buf.readable = (s.appended.drop s.answers.length).flatMap IntValue.encode) ∧
    (∀ b : Buffer, b.Wf → ∀ v : IntValue, v.width.size ≤ b.prependableBytes →
      ∃ b₁ b₂, v.prepend host b = .ok b₁ ∧ v.width.read host b₁ = .ok (v, b₂) ∧
        b₂.readable = b.readable) := by
  constructor
  · intro b hwf hempty calls r hrun
    have hstart : IntStream.Tracks ⟨b, [], []⟩ := ⟨hwf, List.prefix_refl _, hempty⟩
    obtain ⟨s, hr, hs⟩ := hrun.total (I := fun _ => IntStream.Tracks) hstart
      fun _ _ _ ht hmay => ht.call hmay
    exact ⟨s, hr, hs.answered, hs.holds⟩
  · intro b hwf v hroom
    rw [← IntValue.length_encode] at hroom
    obtain ⟨b₁, hb₁, hwf₁, hread₁⟩ := prepend_spec hwf hroom
    obtain ⟨b₂, hb₂, _, hread₂⟩ := read_spec host hwf₁ v hread₁
    exact ⟨b₁, b₂, (IntValue.prepend_eq host b v).trans hb₁, hb₂, hread₂⟩

/-- Three integers of three widths through a buffer of nine bytes, which slides and
grows on the way, and one prepended. -/
theorem integers_roundTrip_small :
    (∃ s, (intStream .little).Run ⟨⟨List.replicate 17 0, 8, 8⟩, [], []⟩
        [.append (.int64 (-2)), .append (.int8 7), .read .int64, .append (.int16 (-300)),
          .read .int8] (.ok s) ∧
      s.answers = [.int64 (-2), .int8 7] ∧ s.buf.readable = (IntValue.int16 (-300)).encode) ∧
    ∃ b₁ b₂, (IntValue.int32 5).prepend .little ⟨List.replicate 8 0 ++ [42], 8, 9⟩ = .ok b₁ ∧
      IntWidth.read .little b₁ .int32 = .ok (.int32 5, b₂) ∧ b₂.readable = [42] := by
  constructor
  · obtain ⟨s, hrun, happended, hcount⟩ : ∃ s, (intStream .little).Run
        ⟨⟨List.replicate 17 0, 8, 8⟩, [], []⟩
        [.append (.int64 (-2)), .append (.int8 7), .read .int64, .append (.int16 (-300)),
          .read .int8] (.ok s) ∧
        s.appended = [.int64 (-2), .int8 7, .int16 (-300)] ∧ s.answers.length = 2 :=
      System.run_of_reaches (by decide)
    obtain ⟨s', hs', hanswers, hread⟩ := (integers_roundTrip .little).1
      ⟨List.replicate 17 0, 8, 8⟩ (by decide) (by decide) _ _ hrun
    cases hs'
    rw [happended] at hanswers hread
    rw [hcount] at hread
    refine ⟨s, hrun, ?_, hread.trans (List.append_nil _)⟩
    rw [List.prefix_iff_eq_take.mp hanswers, hcount]
    rfl
  · exact (integers_roundTrip .little).2 ⟨List.replicate 8 0 ++ [42], 8, 9⟩
      (by decide) (.int32 5) (by decide)

end Buffer

end ClyServer.Net
