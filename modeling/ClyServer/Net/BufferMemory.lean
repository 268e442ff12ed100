import ClyServer.Net.BufferTransfer

/-!
# How large a buffer becomes

The array is never given back. What bounds it is `makeSpace`: it lets the array grow only
when the room behind the readable bytes and the room in front of them are not enough together,
and then to the byte (`Grows`). So the room in front was small, and the array is never more
than about twice as long as what it had to hold at one time, however long the buffer is used and
whatever is read, taken out and put in between (`array_bounded`).
-/

namespace ClyServer.Net.Buffer

open ClyServer.Lib ClyServer.Lib.System

variable {b b' : Buffer}

/-- The array after room for `len` bytes was made: as long as before or, where the room there was
did not suffice, just long enough. -/
def Grows (b : Buffer) (len : Nat) (b' : Buffer) : Prop :=
  b'.buffer.length = b.buffer.length ∨
    (b.writableBytes < len ∧ b.writableBytes + b.prependableBytes < len + kCheapPrepend ∧
      b'.buffer.length = b.writerIndex + len)

theorem Grows.le {len : Nat} (h : b.Grows len b') : b.buffer.length ≤ b'.buffer.length := by
  rcases h with hsame | ⟨hfew, -, hgrown⟩
  · exact Nat.le_of_eq hsame.symm
  · unfold writableBytes at hfew
    omega

/-- What has grown is at most twice what it holds, and a little. -/
theorem Grows.bounded {len : Nat} (h : b.Grows len b') (hb : b.Ordered) :
    b'.buffer.length ≤ max b.buffer.length (2 * (b.readableBytes + len) + 7) := by
  have hle := hb.reader_le
  have hcap := hb.writer_le
  rcases h with hsame | ⟨-, hroom, hgrown⟩
  · exact hsame ▸ Nat.le_max_left ..
  · unfold writableBytes prependableBytes kCheapPrepend at hroom
    unfold readableBytes
    omega

theorem makeSpace_grows (hb : b.Ordered) {len : Nat} (hfew : b.writableBytes < len)
    (h : b.makeSpace len = .ok b') : b.Grows len b' := by
  have hcap := hb.writer_le
  unfold makeSpace at h
  split at h
  · rename_i hroom
    cases h
    exact .inr ⟨hfew, hroom, length_resize ..⟩
  · by_cases hreader : kCheapPrepend < b.readerIndex
    · rw [check_pos hreader, ok_bind] at h
      obtain ⟨_, _, h⟩ := bind_eq_ok.mp h
      cases h
      left
      apply length_overwrite
      rw [length_slice hcap]
      have hle := hb.reader_le
      omega
    · rw [check_neg hreader] at h
      cases h

theorem ensureWritableBytes_grows (hb : b.Ordered) {len : Nat}
    (h : b.ensureWritableBytes len = .ok b') : b.Grows len b' := by
  unfold ensureWritableBytes at h
  by_cases hfew : b.writableBytes < len
  · simp only [if_pos hfew] at h
    obtain ⟨b₁, h₁, h⟩ := bind_eq_ok.mp h
    obtain ⟨_, _, h⟩ := bind_eq_ok.mp h
    cases h
    exact makeSpace_grows hb hfew h₁
  · simp only [if_neg hfew, pure_eq_ok, ok_bind] at h
    obtain ⟨_, _, h⟩ := bind_eq_ok.mp h
    cases h
    exact .inl rfl

theorem store_length {data : Bytes} (hb : b.Ordered) (h : b.store data = .ok b') :
    b'.buffer.length = b.buffer.length := by
  unfold store at h
  split at h
  · rename_i hfit
    cases h
    exact (overwrite_keeps hb hfit).2
  · cases h

theorem hasWritten_buffer {len : Nat} (h : b.hasWritten len = .ok b') : b'.buffer = b.buffer := by
  unfold hasWritten at h
  obtain ⟨_, _, h⟩ := bind_eq_ok.mp h
  cases h
  rfl

theorem retrieve_buffer {len : Nat} (h : b.retrieve len = .ok b') : b'.buffer = b.buffer := by
  unfold retrieve at h
  obtain ⟨_, _, h⟩ := bind_eq_ok.mp h
  split at h
  · cases h
    rfl
  · cases h
    rfl

theorem retrieveUntil_buffer {last : Nat} (h : b.retrieveUntil last = .ok b') :
    b'.buffer = b.buffer := by
  obtain ⟨_, _, h⟩ := bind_eq_ok.mp h
  obtain ⟨_, _, h⟩ := bind_eq_ok.mp h
  exact retrieve_buffer h

theorem retrieveAsString_buffer {len : Nat} {s : Bytes} (h : b.retrieveAsString len = .ok (s, b')) :
    b'.buffer = b.buffer := by
  obtain ⟨_, _, h⟩ := bind_eq_ok.mp h
  obtain ⟨b₁, h₁, h⟩ := bind_eq_ok.mp h
  cases h
  exact retrieve_buffer h₁

/-- `retrieveAllAsString` empties any buffer. -/
theorem retrieveAllAsString_eq (b : Buffer) :
    b.retrieveAllAsString =
      .ok (slice b.buffer b.peek (b.peek + b.readableBytes), b.retrieveAll) := by
  simp [retrieveAllAsString, retrieveAsString, retrieve]

theorem append_grows (hb : b.Ordered) {data : Bytes} (h : b.append data = .ok b') :
    b.Grows data.length b' := by
  obtain ⟨b₁, h₁, hkeeps, -⟩ := ensureWritableBytes_keeps hb data.length
  unfold append at h
  rw [h₁, ok_bind] at h
  obtain ⟨b₂, h₂, h⟩ := bind_eq_ok.mp h
  unfold Grows
  rw [hasWritten_buffer h, store_length hkeeps.ordered h₂]
  exact ensureWritableBytes_grows hb h₁

/-- Reading grows the array as appending what was read does. -/
theorem readFd_grows (hb : b.Ordered) {r : Readv} (hr : r.Possible b) {n : Int}
    {saved : Option Int} (h : b.readFd r = .ok (n, saved, b')) :
    b.Grows r.stored.length b' := by
  have hcap := hb.writer_le
  have hfirst : (r.stored.take b.writableBytes).length ≤ b.writableBytes := List.length_take_le ..
  obtain ⟨-, hsize⟩ := overwrite_keeps hb hfirst
  unfold readFd at h
  dsimp only at h
  split at h
  · cases h
    exact .inl hsize
  · rename_i hn
    split at h
    · cases h
      exact .inl hsize
    · rename_i hspill
      obtain ⟨b₁, h₁, h⟩ := bind_eq_ok.mp h
      cases h
      have hcount : r.n.toNat = r.stored.length := by
        have hcounted := hr.counted
        omega
      rw [hcount] at hspill h₁
      have hfull : Ordered ⟨overwrite b.buffer b.writerIndex (r.stored.take b.writableBytes),
          b.readerIndex, (overwrite b.buffer b.writerIndex
            (r.stored.take b.writableBytes)).length⟩ :=
        ⟨by dsimp only; rw [hsize]; exact Nat.le_trans hb.reader_le hcap, Nat.le_refl _⟩
      have hgrows := append_grows hfull h₁
      have hrest : ((r.stored.drop b.writableBytes).take
          (r.stored.length - b.writableBytes)).length = r.stored.length - b.writableBytes := by
        rw [List.length_take, List.length_drop, Nat.min_self]
      unfold Grows at hgrows ⊢
      rw [hrest, hsize] at hgrows
      unfold writableBytes prependableBytes at hgrows ⊢
      unfold writableBytes at hspill
      dsimp only at hgrows
      omega

/-! ## Runs -/

namespace Op

/-- The bytes an operation makes room for. -/
def asks : Op → Nat
  | append data => data.length
  | ensureWritableBytes len => len
  | _ => 0

theorem run_grows (hb : b.Wf) {op : Op} (h : op.run b = .ok b') : b.Grows op.asks b' := by
  cases op with
  | append data => exact append_grows hb.ordered h
  | ensureWritableBytes len => exact ensureWritableBytes_grows hb.ordered h
  | store data => exact .inl (store_length hb.ordered h)
  | hasWritten len => exact .inl (congrArg List.length (hasWritten_buffer h))
  | unwrite len =>
    obtain ⟨_, _, h⟩ := bind_eq_ok.mp h
    cases h
    exact .inl rfl
  | prepend data =>
    obtain ⟨_, hpre, h⟩ := bind_eq_ok.mp h
    cases h
    left
    by_cases hfit : data.length ≤ b.prependableBytes
    · apply length_overwrite
      have hle := hb.reader_le
      have hcap := hb.writer_le
      unfold prependableBytes at hfit
      omega
    · rw [check_neg hfit] at hpre
      cases hpre
  | retrieve len => exact .inl (congrArg List.length (retrieve_buffer h))
  | retrieveUntil last => exact .inl (congrArg List.length (retrieveUntil_buffer h))
  | retrieveAll =>
    cases h
    exact .inl rfl
  | retrieveAsString len =>
    change (b.retrieveAsString len).map (·.2) = .ok b' at h
    cases hs : b.retrieveAsString len with
    | error e =>
      rw [hs] at h
      cases h
    | ok answer =>
      rw [hs] at h
      cases h
      exact .inl (congrArg List.length (retrieveAsString_buffer hs))

end Op

theorem init_eq (size : Nat) :
    init size = .ok ⟨List.replicate (kCheapPrepend + size) 0, kCheapPrepend, kCheapPrepend⟩ := by
  simp [init, readableBytes, writableBytes, prependableBytes]

/-- What is done with a buffer: an operation, or a read from its descriptor. -/
inductive Use where
  | op (op : Op)
  | readFd (r : Readv)

/-- The bytes a use puts in or makes room for. -/
def Use.asks : Use → Nat
  | .op o => o.asks
  | .readFd r => r.stored.length

/-- A buffer in use, as long as what it holds and what is asked of it stay within `limit`. -/
def uses (limit : Nat) : System Buffer Use Fault where
  enabled b u := b.readableBytes + u.asks ≤ limit ∧
    match u with
    | .op o => o.Pre b
    | .readFd r => r.Possible b
  step b
    | .op o => o.run b
    | .readFd r => do
      let (_, _, b) ← b.readFd r
      return b

instance (limit : Nat) (b : Buffer) : (u : Use) → Decidable ((uses limit).enabled b u)
  | .op _ => inferInstanceAs (Decidable (_ ∧ _))
  | .readFd r => decidable_of_iff (b.readableBytes + r.stored.length ≤ limit ∧
      (r.n < 0 ∨ r.n = r.stored.length) ∧ r.stored.length ≤ b.iovecs.sum)
    ⟨fun h => ⟨h.1, h.2.1, h.2.2⟩, fun h => ⟨h.1, h.2.counted, h.2.offered⟩⟩

/-- A use answers, keeps the index invariant, and grows the array by what it asks for. -/
theorem use_grows {limit : Nat} (hb : b.Wf) {u : Use} (hen : (uses limit).enabled b u) :
    ∃ b', (uses limit).step b u = .ok b' ∧ b'.Wf ∧ b.Grows u.asks b' := by
  cases u with
  | op op =>
    obtain ⟨b', hb', hwf, -, -⟩ := Op.run_spec hb hen.2
    exact ⟨b', hb', hwf, Op.run_grows hb hb'⟩
  | readFd r =>
    obtain ⟨saved, b', hb', hle, hcap, -, -⟩ := readFd_agrees hb.reader_le hb.writer_le hen.2
    have hgrows := readFd_grows hb.ordered hen.2 hb'
    refine ⟨b', ?_, ⟨hle, hcap, Nat.le_trans hb.cheap_le hgrows.le⟩, hgrows⟩
    simp only [uses, hb', ok_bind]
    rfl

/-- **Memory is bounded by what is held at one time.** A buffer that is never asked to hold more
than `limit` bytes, what it is to make room for included, has an array of at most twice
that and seven bytes, or its first size: whatever is done with it, and however long. -/
theorem array_bounded {size limit : Nat} (hinit : init size = .ok b) {us : List Use}
    {r : Checked Buffer} (h : (uses limit).Run b us r) :
    ∃ b', r = .ok b' ∧ b'.buffer.length ≤ max (kCheapPrepend + size) (2 * limit + 7) := by
  obtain ⟨_, hb₀, hwf, -, -⟩ := init_spec size
  cases hb₀.symm.trans hinit
  have hsize : b.buffer.length = kCheapPrepend + size := by
    cases (init_eq size).symm.trans hinit
    exact List.length_replicate
  have hkept : ∃ b', r = .ok b' ∧ (b'.Wf ∧
      b'.buffer.length ≤ max (kCheapPrepend + size) (2 * limit + 7)) := by
    refine h.total (I := fun _ t => t.Wf ∧
      t.buffer.length ≤ max (kCheapPrepend + size) (2 * limit + 7)) ⟨hwf, ?_⟩ ?_
    · rw [hsize]
      exact Nat.le_max_left ..
    · rintro _ t u ⟨ht, hbound⟩ hen
      obtain ⟨t', ht', hwf', hgrows⟩ := use_grows ht hen
      have hafter := hgrows.bounded ht.ordered
      have hlimit := hen.1
      exact ⟨t', ht', hwf', by omega⟩
  obtain ⟨b', hr, -, hbound⟩ := hkept
  exact ⟨b', hr, hbound⟩

/-- Two appends of six bytes with a retrieve between them: nothing more is ever held. -/
theorem array_bounded_small :
    ∃ b, init 4 = .ok b ∧ ∃ b', (uses 6).Run b
        [.op (.append [1, 2, 3, 4, 5, 6]), .op (.retrieve 6), .op (.append [7, 8, 9, 10, 11, 12])]
        (.ok b') ∧ b'.buffer.length ≤ 19 := by
  refine ⟨_, init_eq 4, ?_⟩
  obtain ⟨b', hrun, -⟩ := run_of_reaches (S := uses 6) (P := fun _ => True)
    (show reaches _ ⟨List.replicate 12 0, 8, 8⟩ [.op (.append [1, 2, 3, 4, 5, 6]),
      .op (.retrieve 6), .op (.append [7, 8, 9, 10, 11, 12])] _ = true by decide)
  obtain ⟨_, hr, hbound⟩ := array_bounded (init_eq 4) hrun
  cases hr
  exact ⟨b', hrun, hbound⟩

end ClyServer.Net.Buffer
