import ClyServer.Net.Buffer
import ClyServer.Lib.System
import Mathlib.Logic.Equiv.Basic

/-!
# The buffer is a byte queue

What `Buffer` is for: a queue of bytes that grows at the back, may be extended
at the front, and is consumed from either end. This module says so once per
operation (the `_spec` lemmas: under the asserted precondition the operation
answers, keeps the index invariant, and the readable bytes change as the queue
does) and then over every sequence of calls on any family of buffers
(`buffer_refines_queue`).

The delicate one is `makeSpace`, which either grows the array or slides the
readable bytes onto themselves. Its own assertion `kCheapPrepend < readerIndex_`
follows from the branch it stands in, and only because its caller has found the
writable part too small (`makeSpace_keeps`).
-/

namespace ClyServer.Net.Buffer

open ClyServer.Lib

/-- The index invariant, with the one bound on the array that `retrieveAll`
relies on when it moves both indices to the cheap-prepend mark. -/
structure Wf (b : Buffer) : Prop where
  reader_le : b.readerIndex ≤ b.writerIndex
  writer_le : b.writerIndex ≤ b.buffer.length
  cheap_le : kCheapPrepend ≤ b.buffer.length

instance (b : Buffer) : Decidable b.Wf :=
  decidable_of_iff (b.readerIndex ≤ b.writerIndex ∧ b.writerIndex ≤ b.buffer.length ∧
      kCheapPrepend ≤ b.buffer.length)
    ⟨fun h => ⟨h.1, h.2.1, h.2.2⟩, fun h => ⟨h.reader_le, h.writer_le, h.cheap_le⟩⟩

/-- The index invariant alone, which is all that putting bytes in relies on. -/
structure Ordered (b : Buffer) : Prop where
  reader_le : b.readerIndex ≤ b.writerIndex
  writer_le : b.writerIndex ≤ b.buffer.length

theorem Wf.ordered {b : Buffer} (h : b.Wf) : b.Ordered := ⟨h.reader_le, h.writer_le⟩

/-- What an operation other than `prepend` leaves: a well-formed buffer that
holds `q`, with the cheap-prepend room kept if it was there. -/
structure Becomes (b : Buffer) (q : Bytes) (b' : Buffer) : Prop where
  wf : b'.Wf
  holds : b'.readable = q
  room : kCheapPrepend ≤ b.readerIndex → kCheapPrepend ≤ b'.readerIndex

theorem Becomes.trans {b b' b'' : Buffer} {q q' : Bytes} (h : b.Becomes q b')
    (h' : b'.Becomes q' b'') : b.Becomes q' b'' :=
  ⟨h'.wf, h'.holds, fun hb => h'.room (h.room hb)⟩

theorem Ordered.length_readable {b : Buffer} (h : b.Ordered) :
    b.readable.length = b.readableBytes := length_slice h.writer_le

theorem Wf.length_readable {b : Buffer} (h : b.Wf) : b.readable.length = b.readableBytes :=
  h.ordered.length_readable

/-- What putting bytes in leaves: an ordered buffer that holds `q`, in an array that
has not become smaller. -/
structure Keeps (b : Buffer) (q : Bytes) (b' : Buffer) : Prop where
  ordered : b'.Ordered
  holds : b'.readable = q
  size : b.buffer.length ≤ b'.buffer.length
  room : kCheapPrepend ≤ b.readerIndex → kCheapPrepend ≤ b'.readerIndex

theorem Keeps.trans {b b' b'' : Buffer} {q q' : Bytes} (h : b.Keeps q b')
    (h' : b'.Keeps q' b'') : b.Keeps q' b'' :=
  ⟨h'.ordered, h'.holds, Nat.le_trans h.size h'.size, fun hb => h'.room (h.room hb)⟩

theorem Ordered.keeps_self {b : Buffer} (h : b.Ordered) : b.Keeps b.readable b :=
  ⟨h, rfl, Nat.le_refl _, id⟩

theorem Keeps.becomes {b b' : Buffer} {q : Bytes} (h : b.Keeps q b') (hwf : b.Wf) :
    b.Becomes q b' :=
  ⟨⟨h.ordered.reader_le, h.ordered.writer_le, Nat.le_trans hwf.cheap_le h.size⟩, h.holds, h.room⟩

/-! ## One lemma per operation -/

/-- A constructed buffer is empty, with the cheap-prepend room in front. -/
theorem init_spec (initialSize : Nat) :
    ∃ b, init initialSize = .ok b ∧ b.Wf ∧ b.readable = [] ∧ b.readerIndex = kCheapPrepend := by
  refine ⟨⟨List.replicate (kCheapPrepend + initialSize) 0, kCheapPrepend, kCheapPrepend⟩,
    ?_, ⟨Nat.le_refl _, ?_, ?_⟩, slice_self _ _, rfl⟩
  · simp [init, readableBytes, writableBytes, prependableBytes]
  · simp
  · simp

theorem retrieveAll_spec {b : Buffer} (h : b.Wf) : b.Becomes [] b.retrieveAll :=
  ⟨⟨Nat.le_refl _, h.cheap_le, h.cheap_le⟩, slice_self _ _, fun _ => Nat.le_refl _⟩

theorem retrieve_spec {b : Buffer} (h : b.Wf) {len : Nat} (hlen : len ≤ b.readableBytes) :
    ∃ b', b.retrieve len = .ok b' ∧ b.Becomes (b.readable.drop len) b' := by
  unfold retrieve
  rw [check_pos hlen, ok_bind]
  by_cases hlt : len < b.readableBytes
  · rw [if_pos hlt]
    have hroom : b.readerIndex + len ≤ b.writerIndex := by
      unfold readableBytes at hlt
      omega
    refine ⟨_, rfl, ⟨hroom, h.writer_le, h.cheap_le⟩, slice_drop _ _ _ _, fun hb => ?_⟩
    exact Nat.le_trans hb (Nat.le_add_right _ _)
  · rw [if_neg hlt]
    have hnil : b.readable.drop len = [] := by
      rw [List.drop_eq_nil_iff, h.length_readable]
      omega
    rw [hnil]
    exact ⟨_, rfl, retrieveAll_spec h⟩

theorem retrieveUntil_spec {b : Buffer} (h : b.Wf) {last : Nat} (hfirst : b.peek ≤ last)
    (hlast : last ≤ b.beginWrite) :
    ∃ b', b.retrieveUntil last = .ok b' ∧
      b.Becomes (b.readable.drop (last - b.peek)) b' := by
  unfold retrieveUntil
  rw [check_pos hfirst, check_pos hlast, ok_bind, ok_bind]
  apply retrieve_spec h
  unfold beginWrite at hlast
  unfold readableBytes peek
  omega

/-- The string `retrieveAsString` answers is the prefix it drops. -/
theorem retrieveAsString_spec {b : Buffer} (h : b.Wf) {len : Nat}
    (hlen : len ≤ b.readableBytes) :
    ∃ b', b.retrieveAsString len = .ok (b.readable.take len, b') ∧
      b.Becomes (b.readable.drop len) b' := by
  obtain ⟨b', hb', hbec⟩ := retrieve_spec h hlen
  refine ⟨b', ?_, hbec⟩
  unfold retrieveAsString
  rw [check_pos hlen, ok_bind, hb', ok_bind]
  have hread : slice b.buffer b.peek (b.peek + len) = b.readable.take len := by
    unfold readableBytes at hlen
    have hle := h.reader_le
    rw [slice_take (k := b.writerIndex) (by unfold peek; omega), Nat.add_sub_cancel_left]
    rfl
  rw [hread]
  rfl

theorem unwrite_spec {b : Buffer} (h : b.Wf) {len : Nat} (hlen : len ≤ b.readableBytes) :
    ∃ b', b.unwrite len = .ok b' ∧
      b.Becomes (b.readable.take (b.readable.length - len)) b' := by
  unfold unwrite
  rw [check_pos hlen, ok_bind]
  unfold readableBytes at hlen
  have hle := h.reader_le
  have hcap := h.writer_le
  refine ⟨_, rfl, ⟨?_, ?_, h.cheap_le⟩, ?_, id⟩
  · change b.readerIndex ≤ b.writerIndex - len
    omega
  · change b.writerIndex - len ≤ b.buffer.length
    omega
  · rw [h.length_readable]
    change slice b.buffer b.readerIndex (b.writerIndex - len) = _
    rw [slice_take (Nat.sub_le b.writerIndex len)]
    unfold readable readableBytes
    congr 1
    omega

/-- `makeSpace`, as its one caller uses it: the writable part is too small. Both
branches make the room asked for and keep the readable bytes, and neither
assertion of the sliding branch can fail. -/
theorem makeSpace_keeps {b : Buffer} (h : b.Ordered) {len : Nat} (hlen : b.writableBytes < len) :
    ∃ b', b.makeSpace len = .ok b' ∧ b.Keeps b.readable b' ∧ len ≤ b'.writableBytes := by
  have hle := h.reader_le
  have hcap := h.writer_le
  unfold makeSpace
  by_cases hgrow : b.writableBytes + b.prependableBytes < len + kCheapPrepend
  · rw [if_pos hgrow]
    refine ⟨_, rfl, ⟨⟨hle, ?_⟩, ?_, ?_, id⟩, ?_⟩
    · rw [length_resize]
      exact Nat.le_add_right _ _
    · exact slice_resize hcap (Nat.le_add_right _ _)
    · unfold writableBytes at hlen
      rw [length_resize]
      omega
    · unfold writableBytes
      rw [length_resize]
      change len ≤ b.writerIndex + len - b.writerIndex
      omega
  · rw [if_neg hgrow]
    -- the assertion of the source: too little room behind, enough in total
    have hslide : kCheapPrepend < b.readerIndex := by
      unfold prependableBytes at hgrow
      omega
    have hread : (slice b.buffer b.readerIndex b.writerIndex).length = b.readableBytes :=
      h.length_readable
    have hfit : kCheapPrepend + (slice b.buffer b.readerIndex b.writerIndex).length ≤
        b.buffer.length := by
      rw [hread]
      unfold readableBytes
      omega
    have hsame : b.readableBytes = readableBytes
        ⟨overwrite b.buffer kCheapPrepend (slice b.buffer b.readerIndex b.writerIndex),
          kCheapPrepend, kCheapPrepend + b.readableBytes⟩ := by
      change b.readableBytes = kCheapPrepend + b.readableBytes - kCheapPrepend
      omega
    rw [check_pos hslide, ok_bind]
    dsimp only
    rw [check_pos hsame, ok_bind]
    refine ⟨_, rfl, ⟨⟨Nat.le_add_right _ _, ?_⟩, ?_, ?_, fun _ => Nat.le_refl _⟩, ?_⟩
    · rw [length_overwrite hfit]
      rw [hread] at hfit
      exact hfit
    · have hself := slice_overwrite_self (l := b.buffer)
        (d := slice b.buffer b.readerIndex b.writerIndex) (k := kCheapPrepend) (by omega)
      rw [hread] at hself
      exact hself
    · rw [length_overwrite hfit]
    · unfold writableBytes at hgrow ⊢
      unfold prependableBytes at hgrow
      rw [length_overwrite hfit]
      change len ≤ b.buffer.length - (kCheapPrepend + (b.writerIndex - b.readerIndex))
      omega

theorem ensureWritableBytes_keeps {b : Buffer} (h : b.Ordered) (len : Nat) :
    ∃ b', b.ensureWritableBytes len = .ok b' ∧ b.Keeps b.readable b' ∧
      len ≤ b'.writableBytes := by
  unfold ensureWritableBytes
  by_cases hlen : b.writableBytes < len
  · obtain ⟨b', hb', hkeeps, hroom⟩ := makeSpace_keeps h hlen
    simp only [if_pos hlen, hb', ok_bind, check_pos hroom]
    exact ⟨b', rfl, hkeeps, hroom⟩
  · simp only [if_neg hlen, pure_eq_ok, ok_bind, check_pos (Nat.le_of_not_lt hlen)]
    exact ⟨b, rfl, h.keeps_self, Nat.le_of_not_lt hlen⟩

theorem ensureWritableBytes_spec {b : Buffer} (h : b.Wf) (len : Nat) :
    ∃ b', b.ensureWritableBytes len = .ok b' ∧ b.Becomes b.readable b' ∧
      len ≤ b'.writableBytes := by
  obtain ⟨b', hb', hkeeps, hroom⟩ := ensureWritableBytes_keeps h.ordered len
  exact ⟨b', hb', hkeeps.becomes h, hroom⟩

/-- Bytes stored behind the writer index are invisible, and what a longer window
sees behind it. -/
theorem overwrite_keeps {b : Buffer} (h : b.Ordered) {data : Bytes}
    (hlen : data.length ≤ b.writableBytes) :
    b.Keeps b.readable { b with buffer := overwrite b.buffer b.writerIndex data } ∧
      (overwrite b.buffer b.writerIndex data).length = b.buffer.length := by
  have hcap := h.writer_le
  have hsize : (overwrite b.buffer b.writerIndex data).length = b.buffer.length := by
    unfold writableBytes at hlen
    exact length_overwrite (by omega)
  refine ⟨⟨⟨h.reader_le, ?_⟩, slice_overwrite_of_le (Nat.le_refl _) hcap, ?_, id⟩, hsize⟩
  · rw [hsize]
    exact hcap
  · rw [hsize]

/-- Storing behind the writer index is invisible, and is what a later
`hasWritten` exposes. -/
theorem store_keeps {b : Buffer} (h : b.Ordered) {data : Bytes}
    (hlen : data.length ≤ b.writableBytes) :
    ∃ b', b.store data = .ok b' ∧ b.Keeps b.readable b' ∧
      b'.writable.take data.length = data ∧ b'.writableBytes = b.writableBytes := by
  have hcap := h.writer_le
  obtain ⟨hkeeps, hsize⟩ := overwrite_keeps h hlen
  unfold store
  rw [if_pos hlen]
  refine ⟨_, rfl, hkeeps, ?_, ?_⟩
  · change (slice (overwrite b.buffer b.writerIndex data) b.writerIndex
      (overwrite b.buffer b.writerIndex data).length).take data.length = data
    have hend : b.writerIndex + data.length ≤ (overwrite b.buffer b.writerIndex data).length := by
      unfold writableBytes at hlen
      rw [hsize]
      omega
    have htake := slice_take (l := overwrite b.buffer b.writerIndex data)
      (i := b.writerIndex) (j := b.writerIndex + data.length)
      (k := (overwrite b.buffer b.writerIndex data).length) hend
    rw [Nat.add_sub_cancel_left] at htake
    rw [← htake]
    exact slice_overwrite_self hcap
  · unfold writableBytes
    exact congrArg (· - b.writerIndex) hsize

theorem store_spec {b : Buffer} (h : b.Wf) {data : Bytes}
    (hlen : data.length ≤ b.writableBytes) :
    ∃ b', b.store data = .ok b' ∧ b.Becomes b.readable b' ∧
      b'.writable.take data.length = data ∧ b'.writableBytes = b.writableBytes := by
  obtain ⟨b', hb', hkeeps, hstored⟩ := store_keeps h.ordered hlen
  exact ⟨b', hb', hkeeps.becomes h, hstored⟩

theorem hasWritten_keeps {b : Buffer} (h : b.Ordered) {len : Nat} (hlen : len ≤ b.writableBytes) :
    ∃ b', b.hasWritten len = .ok b' ∧ b.Keeps (b.readable ++ b.writable.take len) b' := by
  have hle := h.reader_le
  have hcap := h.writer_le
  unfold hasWritten
  rw [check_pos hlen, ok_bind]
  unfold writableBytes at hlen
  refine ⟨_, rfl, ⟨?_, ?_⟩, ?_, Nat.le_refl _, id⟩
  · exact Nat.le_trans hle (Nat.le_add_right _ _)
  · change b.writerIndex + len ≤ b.buffer.length
    omega
  · change slice b.buffer b.readerIndex (b.writerIndex + len) = _
    rw [← slice_append hle (Nat.le_add_right b.writerIndex len)]
    have htake := slice_take (l := b.buffer) (i := b.writerIndex) (j := b.writerIndex + len)
      (k := b.buffer.length) (by omega)
    rw [Nat.add_sub_cancel_left] at htake
    rw [htake]
    rfl

theorem hasWritten_spec {b : Buffer} (h : b.Wf) {len : Nat} (hlen : len ≤ b.writableBytes) :
    ∃ b', b.hasWritten len = .ok b' ∧ b.Becomes (b.readable ++ b.writable.take len) b' := by
  obtain ⟨b', hb', hkeeps⟩ := hasWritten_keeps h.ordered hlen
  exact ⟨b', hb', hkeeps.becomes h⟩

/-- `append` appends, whatever growth or sliding it takes. -/
theorem append_keeps {b : Buffer} (h : b.Ordered) (data : Bytes) :
    ∃ b', b.append data = .ok b' ∧ b.Keeps (b.readable ++ data) b' := by
  obtain ⟨b₁, h₁, hkeeps₁, hroom⟩ := ensureWritableBytes_keeps h data.length
  obtain ⟨b₂, h₂, hkeeps₂, hstored, hkept⟩ := store_keeps hkeeps₁.ordered hroom
  rw [← hkept] at hroom
  obtain ⟨b₃, h₃, hkeeps₃⟩ := hasWritten_keeps hkeeps₂.ordered hroom
  refine ⟨b₃, ?_, ?_⟩
  · unfold append
    rw [h₁, ok_bind, h₂, ok_bind, h₃]
  · have hq : b₂.readable ++ b₂.writable.take data.length = b.readable ++ data := by
      rw [hkeeps₂.holds, hkeeps₁.holds, hstored]
    rw [← hq]
    exact (hkeeps₁.trans hkeeps₂).trans hkeeps₃

theorem append_spec {b : Buffer} (h : b.Wf) (data : Bytes) :
    ∃ b', b.append data = .ok b' ∧ b.Becomes (b.readable ++ data) b' := by
  obtain ⟨b', hb', hkeeps⟩ := append_keeps h.ordered data
  exact ⟨b', hb', hkeeps.becomes h⟩

/-- `prepend` prepends; it is the one operation that uses up the room in front. -/
theorem prepend_spec {b : Buffer} (h : b.Wf) {data : Bytes}
    (hlen : data.length ≤ b.prependableBytes) :
    ∃ b', b.prepend data = .ok b' ∧ b'.Wf ∧ b'.readable = data ++ b.readable := by
  have hle := h.reader_le
  have hcap := h.writer_le
  unfold prepend
  rw [check_pos hlen, ok_bind]
  unfold prependableBytes at hlen
  have hsize : (overwrite b.buffer (b.readerIndex - data.length) data).length =
      b.buffer.length := length_overwrite (by omega)
  refine ⟨_, rfl, ⟨?_, ?_, ?_⟩, ?_⟩
  · exact Nat.le_trans (Nat.sub_le _ _) hle
  · rw [hsize]
    exact hcap
  · rw [hsize]
    exact h.cheap_le
  · exact slice_overwrite_prepend hlen hle (Nat.le_trans hle hcap)

/-! ## Sequences of calls -/

/-- A call on one buffer. `store` is the client's own write through
`beginWrite()`, which is what gives a later `hasWritten` something to expose. -/
inductive Op where
  | append (data : Bytes)
  | ensureWritableBytes (len : Nat)
  | store (data : Bytes)
  | hasWritten (len : Nat)
  | unwrite (len : Nat)
  | prepend (data : Bytes)
  | retrieve (len : Nat)
  | retrieveUntil (last : Nat)
  | retrieveAll
  | retrieveAsString (len : Nat)
  deriving DecidableEq, Repr

namespace Op

/-- The precondition the source asserts of the call. -/
def Pre (b : Buffer) : Op → Prop
  | append _ => True
  | ensureWritableBytes _ => True
  | store data => data.length ≤ b.writableBytes
  | hasWritten len => len ≤ b.writableBytes
  | unwrite len => len ≤ b.readableBytes
  | prepend data => data.length ≤ b.prependableBytes
  | retrieve len => len ≤ b.readableBytes
  | retrieveUntil last => b.peek ≤ last ∧ last ≤ b.beginWrite
  | retrieveAll => True
  | retrieveAsString len => len ≤ b.readableBytes

instance (b : Buffer) : (op : Op) → Decidable (op.Pre b)
  | append _ => inferInstanceAs (Decidable True)
  | ensureWritableBytes _ => inferInstanceAs (Decidable True)
  | store data => inferInstanceAs (Decidable (data.length ≤ b.writableBytes))
  | hasWritten len => inferInstanceAs (Decidable (len ≤ b.writableBytes))
  | unwrite len => inferInstanceAs (Decidable (len ≤ b.readableBytes))
  | prepend data => inferInstanceAs (Decidable (data.length ≤ b.prependableBytes))
  | retrieve len => inferInstanceAs (Decidable (len ≤ b.readableBytes))
  | retrieveUntil last => inferInstanceAs (Decidable (b.peek ≤ last ∧ last ≤ b.beginWrite))
  | retrieveAll => inferInstanceAs (Decidable True)
  | retrieveAsString len => inferInstanceAs (Decidable (len ≤ b.readableBytes))

/-- The call on the buffer. -/
def run (b : Buffer) : Op → Checked Buffer
  | append data => b.append data
  | ensureWritableBytes len => b.ensureWritableBytes len
  | store data => b.store data
  | hasWritten len => b.hasWritten len
  | unwrite len => b.unwrite len
  | prepend data => b.prepend data
  | retrieve len => b.retrieve len
  | retrieveUntil last => b.retrieveUntil last
  | retrieveAll => .ok b.retrieveAll
  | retrieveAsString len => (b.retrieveAsString len).map (·.2)

/-- The call on the abstract queue. The buffer is read for two things only: the
bytes `hasWritten` exposes, and where the pointer of `retrieveUntil` counts from. -/
def spec (b : Buffer) (q : Bytes) : Op → Bytes
  | append data => q ++ data
  | ensureWritableBytes _ => q
  | store _ => q
  | hasWritten len => q ++ b.writable.take len
  | unwrite len => q.take (q.length - len)
  | prepend data => data ++ q
  | retrieve len => q.drop len
  | retrieveUntil last => q.drop (last - b.peek)
  | retrieveAll => []
  | retrieveAsString len => q.drop len

/-- One call: it answers, keeps the invariant, does to the readable bytes what
the queue does, and only `prepend` may use up the cheap-prepend room. -/
theorem run_spec {b : Buffer} (h : b.Wf) {op : Op} (hpre : op.Pre b) :
    ∃ b', op.run b = .ok b' ∧ b'.Wf ∧ b'.readable = op.spec b b.readable ∧
      ((∀ data, op ≠ prepend data) →
        kCheapPrepend ≤ b.readerIndex → kCheapPrepend ≤ b'.readerIndex) := by
  cases op with
  | append data =>
    obtain ⟨b', hb', hbec⟩ := append_spec h data
    exact ⟨b', hb', hbec.wf, hbec.holds, fun _ => hbec.room⟩
  | ensureWritableBytes len =>
    obtain ⟨b', hb', hbec, _⟩ := ensureWritableBytes_spec h len
    exact ⟨b', hb', hbec.wf, hbec.holds, fun _ => hbec.room⟩
  | store data =>
    obtain ⟨b', hb', hbec, _⟩ := store_spec h hpre
    exact ⟨b', hb', hbec.wf, hbec.holds, fun _ => hbec.room⟩
  | hasWritten len =>
    obtain ⟨b', hb', hbec⟩ := hasWritten_spec h hpre
    exact ⟨b', hb', hbec.wf, hbec.holds, fun _ => hbec.room⟩
  | unwrite len =>
    obtain ⟨b', hb', hbec⟩ := unwrite_spec h hpre
    exact ⟨b', hb', hbec.wf, hbec.holds, fun _ => hbec.room⟩
  | prepend data =>
    obtain ⟨b', hb', hwf, hholds⟩ := prepend_spec h hpre
    exact ⟨b', hb', hwf, hholds, fun hno => absurd rfl (hno data)⟩
  | retrieve len =>
    obtain ⟨b', hb', hbec⟩ := retrieve_spec h hpre
    exact ⟨b', hb', hbec.wf, hbec.holds, fun _ => hbec.room⟩
  | retrieveUntil last =>
    obtain ⟨b', hb', hbec⟩ := retrieveUntil_spec h hpre.1 hpre.2
    exact ⟨b', hb', hbec.wf, hbec.holds, fun _ => hbec.room⟩
  | retrieveAll =>
    have hbec := retrieveAll_spec h
    exact ⟨_, rfl, hbec.wf, hbec.holds, fun _ => hbec.room⟩
  | retrieveAsString len =>
    obtain ⟨b', hb', hbec⟩ := retrieveAsString_spec h hpre
    refine ⟨b', ?_, hbec.wf, hbec.holds, fun _ => hbec.room⟩
    change (b.retrieveAsString len).map (·.2) = .ok b'
    rw [hb']
    rfl

end Op

section Calls

variable {ι : Type} [DecidableEq ι]

/-- A call in a family of buffers: an operation on one of them, or `swap`. -/
inductive Call (ι : Type) where
  | on (i : ι) (op : Op)
  | swap (i j : ι)

/-- A family of buffers, each beside the abstract queue it is compared with. -/
structure Family (ι : Type) where
  bufs : ι → Buffer
  queues : ι → Bytes

/-- The family under calls that respect the asserted preconditions: the buffers
run the source's operations, the queues the abstract ones. -/
def calls (ι : Type) [DecidableEq ι] : System (Family ι) (Call ι) Fault where
  enabled s
    | .on i op => op.Pre (s.bufs i)
    | .swap _ _ => True
  step s
    | .on i op => do
      let b ← op.run (s.bufs i)
      return { bufs := Function.update s.bufs i b
               queues := Function.update s.queues i (op.spec (s.bufs i) (s.queues i)) }
    | .swap i j => .ok { bufs := s.bufs ∘ Equiv.swap i j, queues := s.queues ∘ Equiv.swap i j }

instance (s : Family ι) : (c : Call ι) → Decidable ((calls ι).enabled s c)
  | .on i op => inferInstanceAs (Decidable (op.Pre (s.bufs i)))
  | .swap _ _ => inferInstanceAs (Decidable True)

/-- The invariant over the calls made so far: every buffer is well formed and
holds its queue, and while no `prepend` was made the cheap-prepend room is
there. -/
structure Tracks (cs : List (Call ι)) (s : Family ι) : Prop where
  wf : ∀ i, (s.bufs i).Wf
  holds : ∀ i, (s.bufs i).readable = s.queues i
  room : (∀ i data, Call.on i (.prepend data) ∉ cs) → ∀ i, kCheapPrepend ≤ (s.bufs i).readerIndex

/-- One call of the family keeps the invariant and does not fault. -/
theorem Tracks.step {cs : List (Call ι)} {s : Family ι} {c : Call ι} (h : Tracks cs s)
    (hen : (calls ι).enabled s c) :
    ∃ t, (calls ι).step s c = .ok t ∧ Tracks (cs ++ [c]) t := by
  cases c with
  | on i op =>
    obtain ⟨b, hb, hwf, hholds, hroom⟩ := Op.run_spec (h.wf i) hen
    refine ⟨_, by simp only [calls, hb, ok_bind]; rfl, ?_, ?_, ?_⟩
    · intro k
      dsimp only
      by_cases hk : k = i
      · subst hk
        rwa [Function.update_self]
      · rw [Function.update_of_ne hk]
        exact h.wf k
    · intro k
      dsimp only
      by_cases hk : k = i
      · subst hk
        rw [Function.update_self, Function.update_self, hholds, h.holds k]
      · rw [Function.update_of_ne hk, Function.update_of_ne hk]
        exact h.holds k
    · intro hno k
      have hbefore := h.room fun j data hmem => hno j data (List.mem_append_left _ hmem)
      dsimp only
      by_cases hk : k = i
      · subst hk
        rw [Function.update_self]
        refine hroom (fun data hop => hno k data ?_) (hbefore k)
        rw [hop]
        exact List.mem_append_right _ (List.mem_singleton_self _)
      · rw [Function.update_of_ne hk]
        exact hbefore k
  | swap i j =>
    refine ⟨_, rfl, fun k => h.wf _, fun k => h.holds _, fun hno k => ?_⟩
    exact h.room (fun l data hmem => hno l data (List.mem_append_left _ hmem)) _

end Calls

end ClyServer.Net.Buffer
