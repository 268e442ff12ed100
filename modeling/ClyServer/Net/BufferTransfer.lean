import ClyServer.Net.BufferQueue

/-!
# Reading into a buffer, and shrinking it

`readFd` hands readv(2) the writable bytes and a second area on the stack, and
puts what landed there behind the rest with `append`. On the readable bytes that is
`append` of everything read, whichever areas were filled and whatever the array
had to do (`readFd_agrees`).

`shrink` swaps the buffer with a fresh one that has the room asked for. The
readable bytes were meant to be copied first; that line is commented out, so they
are gone (`shrinkKeeps_iff`).
-/

namespace ClyServer.Net.Buffer

open ClyServer.Lib

/-! ## Reading -/

variable {b : Buffer} {r : Readv}

/-- All of it fits into the writable bytes: storing there and moving the writer index
appends. -/
theorem readFd_direct (h : b.Ordered) (hn : r.n = r.stored.length)
    (hfit : r.stored.length ≤ b.writableBytes) :
    ∃ b', b.readFd r = .ok (r.n, none, b') ∧ b'.Ordered ∧ b'.readable = b.readable ++ r.stored := by
  have hle := h.reader_le
  have hcap := h.writer_le
  obtain ⟨_, hsize⟩ := overwrite_keeps h hfit
  have hcount : r.n.toNat = r.stored.length := by omega
  unfold readFd
  dsimp only
  rw [List.take_of_length_le hfit, if_neg (by omega), hcount, if_pos hfit]
  refine ⟨_, rfl, ⟨Nat.le_trans hle (Nat.le_add_right _ _), ?_⟩, slice_overwrite_append hle hcap⟩
  unfold writableBytes at hfit
  change b.writerIndex + r.stored.length ≤ (overwrite b.buffer b.writerIndex r.stored).length
  rw [hsize]
  omega

/-- More than fits: the writable bytes are filled to the end of the array, and the
rest is appended from `extrabuf`. -/
theorem readFd_spilled (h : b.Ordered) (hn : r.n = r.stored.length)
    (hspill : b.writableBytes < r.stored.length) :
    ∃ b', b.readFd r = .ok (r.n, none, b') ∧ b'.Ordered ∧ b'.readable = b.readable ++ r.stored := by
  have hle := h.reader_le
  have hcap := h.writer_le
  have hfirst : (r.stored.take b.writableBytes).length = b.writableBytes := by
    rw [List.length_take]
    omega
  have hend : b.writerIndex + b.writableBytes = b.buffer.length := by
    unfold writableBytes
    omega
  obtain ⟨_, hsize⟩ := overwrite_keeps h (Nat.le_of_eq hfirst)
  have hcount : r.n.toNat = r.stored.length := by omega
  have hread : slice (overwrite b.buffer b.writerIndex (r.stored.take b.writableBytes))
      b.readerIndex b.buffer.length = b.readable ++ r.stored.take b.writableBytes := by
    have happend := slice_overwrite_append (d := r.stored.take b.writableBytes) hle hcap
    rwa [hfirst, hend] at happend
  obtain ⟨b', hb', hkeeps⟩ := append_keeps
    (b := ⟨overwrite b.buffer b.writerIndex (r.stored.take b.writableBytes), b.readerIndex,
      b.buffer.length⟩)
    ⟨Nat.le_trans hle hcap, Nat.le_of_eq hsize.symm⟩ (r.stored.drop b.writableBytes)
  refine ⟨b', ?_, hkeeps.ordered, ?_⟩
  · have hrest : (r.stored.drop b.writableBytes).take (r.stored.length - b.writableBytes) =
        r.stored.drop b.writableBytes :=
      List.take_of_length_le (Nat.le_of_eq (List.length_drop ..))
    unfold readFd
    dsimp only
    rw [if_neg (by omega), hcount, if_neg (by omega), hsize, hrest, hb']
    rfl
  · rw [hkeeps.holds]
    change slice (overwrite b.buffer b.writerIndex (r.stored.take b.writableBytes))
      b.readerIndex b.buffer.length ++ _ = _
    rw [hread, List.append_assoc, List.take_append_drop]

/-- A failed read: the writable bytes may hold anything now, the readable ones and the
indices are as they were. -/
theorem readFd_failed (h : b.Ordered) (hn : r.n < 0) :
    ∃ b', b.readFd r = .ok (r.n, some r.errno, b') ∧ b'.Ordered ∧ b'.readable = b.readable ∧
      b'.readerIndex = b.readerIndex ∧ b'.writerIndex = b.writerIndex := by
  have hfit : (r.stored.take b.writableBytes).length ≤ b.writableBytes := List.length_take_le ..
  obtain ⟨hkeeps, _⟩ := overwrite_keeps h hfit
  unfold readFd
  dsimp only
  rw [if_pos hn]
  exact ⟨_, rfl, hkeeps.ordered, hkeeps.holds, rfl, rfl⟩

/-- **The scatter read is a read and an append.** For every buffer with its indices in
order and every outcome of readv(2): `readFd` returns what readv(2) returned and
keeps the indices in order; bytes read are appended exactly as `append` would have;
after a failure the readable bytes and the indices are as before, and
`*savedErrno` is the errno. -/
theorem readFd_agrees (hle : b.readerIndex ≤ b.writerIndex)
    (hcap : b.writerIndex ≤ b.buffer.length) (hr : r.Possible b) :
    ∃ saved b', b.readFd r = .ok (r.n, saved, b') ∧
      b'.readerIndex ≤ b'.writerIndex ∧ b'.writerIndex ≤ b'.buffer.length ∧
      (0 ≤ r.n → b'.readable = b.readable ++ r.stored ∧
        ∃ b'', b.append r.stored = .ok b'' ∧ b''.readable = b'.readable) ∧
      (r.n < 0 → b'.readable = b.readable ∧ b'.readerIndex = b.readerIndex ∧
        b'.writerIndex = b.writerIndex ∧ saved = some r.errno) := by
  have h : b.Ordered := ⟨hle, hcap⟩
  rcases hr.counted with hn | hn
  · obtain ⟨b', hb', hord, hread, hreader, hwriter⟩ := readFd_failed h hn
    refine ⟨_, b', hb', hord.reader_le, hord.writer_le, fun hpos => ?_, fun _ => ?_⟩
    · omega
    · exact ⟨hread, hreader, hwriter, rfl⟩
  · obtain ⟨b', hb', hord, hread⟩ : ∃ b', b.readFd r = .ok (r.n, none, b') ∧ b'.Ordered ∧
        b'.readable = b.readable ++ r.stored := by
      by_cases hfit : r.stored.length ≤ b.writableBytes
      · exact readFd_direct h hn hfit
      · exact readFd_spilled h hn (by omega)
    obtain ⟨b'', hb'', hkeeps⟩ := append_keeps h r.stored
    refine ⟨_, b', hb', hord.reader_le, hord.writer_le, fun _ => ?_, fun hneg => ?_⟩
    · exact ⟨hread, b'', hb'', by rw [hkeeps.holds, hread]⟩
    · omega

/-- Three bytes into two: the array has room for the first two, and slides for the
third. -/
theorem readFd_agrees_spill :
    Readv.Possible ⟨3, 0, [1, 2, 3]⟩ ⟨List.replicate 12 0, 10, 10⟩ ∧
    ∃ saved b', readFd ⟨List.replicate 12 0, 10, 10⟩ ⟨3, 0, [1, 2, 3]⟩ = .ok (3, saved, b') ∧
      b'.readable = [1, 2, 3] := by
  have hr : Readv.Possible ⟨3, 0, [1, 2, 3]⟩ ⟨List.replicate 12 0, 10, 10⟩ :=
    ⟨.inr rfl, by decide⟩
  obtain ⟨saved, b', hb', _, _, hread, _⟩ :=
    readFd_agrees (b := ⟨List.replicate 12 0, 10, 10⟩) (by decide) (by decide) hr
  exact ⟨hr, saved, b', hb', (hread (by decide)).1⟩

/-! ## Shrinking -/

/-- What shrinking is for: the readable bytes stay, with the reserve writable behind
them and the indices in order. -/
def ShrinkKeeps (b : Buffer) (reserve : Nat) : Prop :=
  ∃ b', b.shrink reserve = .ok b' ∧ b'.readable = b.readable ∧ reserve ≤ b'.writableBytes ∧
    b'.readerIndex ≤ b'.writerIndex ∧ b'.writerIndex ≤ b'.buffer.length

/-- What it does: the room is there, and the buffer is empty. -/
theorem shrink_spec (b : Buffer) (reserve : Nat) :
    ∃ b', b.shrink reserve = .ok b' ∧ b'.Ordered ∧ b'.readable = [] ∧
      b.readableBytes + reserve ≤ b'.writableBytes := by
  obtain ⟨other, hinit, hwf, hempty, _⟩ := init_spec kInitialSize
  obtain ⟨other', hother', hkeeps, hroom⟩ :=
    ensureWritableBytes_keeps hwf.ordered (b.readableBytes + reserve)
  refine ⟨other', ?_, hkeeps.ordered, hkeeps.holds.trans hempty, hroom⟩
  simp only [shrink, hinit, hother', ok_bind]
  rfl

/-- **Shrinking keeps the data exactly when there is none.** -/
theorem shrinkKeeps_iff (b : Buffer) (reserve : Nat) :
    b.ShrinkKeeps reserve ↔ b.readable = [] := by
  obtain ⟨b', hb', hord, hempty, hroom⟩ := shrink_spec b reserve
  constructor
  · rintro ⟨b'', hb'', hread, _⟩
    cases hb'.symm.trans hb''
    rw [← hread, hempty]
  · intro hnone
    refine ⟨b', hb', hempty.trans hnone.symm, ?_, hord.reader_le, hord.writer_le⟩
    omega

/-- One byte, and it is gone. -/
theorem shrinkKeeps_fails : ¬ ShrinkKeeps ⟨List.replicate 8 0 ++ [42], 8, 9⟩ 0 := by
  rintro ⟨b', hb', hread, _⟩
  obtain ⟨b'', hb'', _, hempty, _⟩ := shrink_spec ⟨List.replicate 8 0 ++ [42], 8, 9⟩ 0
  cases hb'.symm.trans hb''
  rw [hempty] at hread
  exact absurd hread (by decide)

end ClyServer.Net.Buffer
