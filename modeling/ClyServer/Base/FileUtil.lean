import ClyServer.Base.Types
import Mathlib.Algebra.Ring.Nat

/-!
# Appending to a file (`base/FileUtil.h`, `base/FileUtil.cpp`)

`AppendFile::append` offers a line to `fwrite_unlocked` until all of it is written
or a short write comes with an error, and adds to `writtenBytes_` what it counted.
Each call of `fwrite_unlocked` is a result given from outside: how many bytes it
reports (at most what it was offered) and what `ferror` says after it. What was
offered is recorded, and the loop that is still waiting for a result has no answer.

The count leaves out the bytes of the write that failed, so `accounts_iff`: what is
added is what was reported unless the line ends in a write that failed partway.
-/

namespace ClyServer

/-- What a call of `fwrite_unlocked` reports, and whether `ferror` is set after it. -/
structure WriteResult where
  count : Nat
  error : Bool
  deriving DecidableEq, Repr

/-- A call of `write`: the bytes it was given and how many it reported as written. -/
structure Offer where
  bytes : Bytes
  reported : Nat
  deriving DecidableEq, Repr

/-- The bytes reported as written. -/
def reported (offers : List Offer) : Nat := (offers.map Offer.reported).sum

structure AppendFile where
  filename : Bytes
  writtenBytes : Nat
  deriving DecidableEq, Repr

namespace AppendFile

/-- `AppendFile(filename)`, for whether `fopen` succeeded. -/
def new (filename : Bytes) (opened : Bool) : Checked AppendFile := do
  check (opened = true) .appendFile
  return ⟨filename, 0⟩

/-- `write(logline, len)`: no more is reported than was offered. -/
def write (r : WriteResult) (len : Nat) : Nat := min r.count len

/-- The loop of `append`, with `written` bytes counted so far: the offers it makes for
these results, and `written` at its end, if they bring it there. -/
def appendLoop (logline : Bytes) : Nat → List WriteResult → List Offer × Option Nat
  | written, [] => ([], if written ≠ logline.length then none else some written)
  | written, r :: results =>
    if written ≠ logline.length then
      let remain := logline.length - written
      let n := write r remain
      let offer : Offer := ⟨logline.drop written, n⟩
      if n ≠ remain ∧ r.error then ([offer], some written)
      else
        let rest := appendLoop logline (written + n) results
        (offer :: rest.1, rest.2)
    else ([], some written)

/-- `append(logline, len)`. -/
def append (f : AppendFile) (logline : Bytes) (results : List WriteResult) : Checked AppendFile :=
  match (appendLoop logline 0 results).2 with
  | some written => return { f with writtenBytes := f.writtenBytes + written }
  | none => .error .diverged

/-- The calls of `write` that `append(logline, len)` makes. -/
def offers (logline : Bytes) (results : List WriteResult) : List Offer :=
  (appendLoop logline 0 results).1

/-! ## The account -/

/-- What a caller may expect of `writtenBytes_`: a call that returns adds the bytes that were
reported, and at any time the next bytes offered are those behind the ones reported. -/
structure Accounts (f : AppendFile) (logline : Bytes) (results : List WriteResult) : Prop where
  counted : ∀ f', f.append logline results = .ok f' →
    f'.writtenBytes = f.writtenBytes + reported (offers logline results)
  inOrder : ∀ pre o post, offers logline results = pre ++ o :: post →
    o.bytes = logline.drop (reported pre)

/-- The first result with an error reports some bytes, and not the last ones of the line. -/
def FailsPartway (len : Nat) (results : List WriteResult) : Prop :=
  ∃ pre r post, results = pre ++ r :: post ∧ (∀ q ∈ pre, q.error = false) ∧ r.error = true ∧
    0 < r.count ∧ (pre.map WriteResult.count).sum + r.count < len

theorem not_failsPartway_nil (len : Nat) : ¬ FailsPartway len [] := by
  rintro ⟨pre, r, post, heq, -⟩
  simp at heq

theorem not_failsPartway_zero (results : List WriteResult) : ¬ FailsPartway 0 results := by
  rintro ⟨pre, r, post, -, -, -, -, hlt⟩
  exact Nat.not_lt_zero _ hlt

theorem failsPartway_cons {len : Nat} {r : WriteResult} {results : List WriteResult} :
    FailsPartway len (r :: results) ↔
      (r.error = true ∧ 0 < r.count ∧ r.count < len) ∨
        (r.error = false ∧ FailsPartway (len - r.count) results) := by
  constructor
  · rintro ⟨pre, q, post, heq, hpre, hq, hpos, hlt⟩
    cases pre with
    | nil =>
      obtain ⟨rfl, -⟩ := List.cons.inj heq
      exact .inl ⟨hq, hpos, by simpa using hlt⟩
    | cons p pre =>
      obtain ⟨rfl, rfl⟩ := List.cons.inj heq
      rw [List.map_cons, List.sum_cons] at hlt
      refine .inr ⟨hpre r List.mem_cons_self, pre, q, post, rfl, ?_, hq, hpos, by omega⟩
      intro x hx
      exact hpre x (List.mem_cons_of_mem _ hx)
  · rintro (⟨hr, hpos, hlt⟩ | ⟨hr, pre, q, post, rfl, hpre, hq, hpos, hlt⟩)
    · exact ⟨[], r, results, rfl, by simp, hr, hpos, by simpa using hlt⟩
    · refine ⟨r :: pre, q, post, rfl, ?_, hq, hpos, ?_⟩
      · intro x hx
        rcases List.mem_cons.mp hx with rfl | hx
        · exact hr
        · exact hpre x hx
      · rw [List.map_cons, List.sum_cons]
        omega

theorem reported_nil : reported [] = 0 := rfl

theorem reported_cons (o : Offer) (os : List Offer) :
    reported (o :: os) = o.reported + reported os := by
  rw [reported, List.map_cons, List.sum_cons, reported]

/-! One round of the loop: it has ended, it ends in a failed write, or it goes on. -/

section Rounds

variable {logline : Bytes} {written : Nat} {r : WriteResult} {results : List WriteResult}

theorem appendLoop_done (hdone : written = logline.length) (results : List WriteResult) :
    appendLoop logline written results = ([], some written) := by
  cases results with
  | nil => rw [appendLoop, if_neg (not_not.mpr hdone)]
  | cons r results => rw [appendLoop, if_neg (not_not.mpr hdone)]

theorem appendLoop_fails (hmore : written ≠ logline.length)
    (hshort : r.count < logline.length - written) (herror : r.error = true) :
    appendLoop logline written (r :: results) =
      ([⟨logline.drop written, r.count⟩], some written) := by
  have hn : write r (logline.length - written) = r.count := Nat.min_eq_left (Nat.le_of_lt hshort)
  simp only [appendLoop, if_pos hmore, hn]
  rw [if_pos ⟨Nat.ne_of_lt hshort, herror⟩]

theorem appendLoop_goes (hmore : written ≠ logline.length)
    (hgoes : r.error = false ∨ logline.length - written ≤ r.count) :
    appendLoop logline written (r :: results) =
      (⟨logline.drop written, write r (logline.length - written)⟩ ::
          (appendLoop logline (written + write r (logline.length - written)) results).1,
        (appendLoop logline (written + write r (logline.length - written)) results).2) := by
  simp only [appendLoop, if_pos hmore]
  rw [if_neg]
  rintro ⟨hshort, herror⟩
  rcases hgoes with hfine | hwhole
  · rw [hfine] at herror
    cases herror
  · exact hshort (Nat.min_eq_right hwhole)

/-- Whatever the results, the loop goes on where the bytes reported end. -/
theorem appendLoop_inOrder {pre : List Offer} {o : Offer} {post : List Offer}
    (h : (appendLoop logline written results).1 = pre ++ o :: post) :
    o.bytes = logline.drop (written + reported pre) := by
  induction results generalizing written pre with
  | nil => simp [appendLoop] at h
  | cons r results ih =>
    by_cases hdone : written = logline.length
    · rw [appendLoop_done hdone] at h
      simp at h
    by_cases hfails : r.error = true ∧ r.count < logline.length - written
    · rw [appendLoop_fails hdone hfails.2 hfails.1] at h
      obtain ⟨rfl, hfirst⟩ | ⟨_, -, hnil⟩ := List.append_eq_cons_iff.mp h.symm
      · obtain ⟨rfl, -⟩ := List.cons.inj hfirst
        rfl
      · simp at hnil
    · rw [appendLoop_goes hdone (by grind)] at h
      cases pre with
      | nil =>
        obtain ⟨rfl, -⟩ := List.cons.inj h
        rfl
      | cons p pre =>
        obtain ⟨rfl, hrest⟩ := List.cons.inj h
        rw [ih hrest, reported_cons, Nat.add_assoc]

/-- The loop's count and the bytes reported to it: they agree unless a write failed partway, whose
bytes are reported and not counted. -/
theorem appendLoop_counted (hle : written ≤ logline.length) (results : List WriteResult) :
    (∀ w, (appendLoop logline written results).2 = some w →
        w = written + reported (appendLoop logline written results).1) ↔
      ¬ FailsPartway (logline.length - written) results := by
  induction results generalizing written with
  | nil =>
    refine iff_of_true ?_ (not_failsPartway_nil _)
    intro w hw
    simp only [appendLoop] at hw ⊢
    split at hw
    · cases hw
    · cases hw
      rfl
  | cons r results ih =>
    by_cases hdone : written = logline.length
    · rw [appendLoop_done hdone, hdone, Nat.sub_self]
      refine iff_of_true ?_ (not_failsPartway_zero _)
      intro w hw
      cases hw
      rfl
    rw [failsPartway_cons]
    by_cases hwhole : logline.length - written ≤ r.count
    · -- A whole write ends the line.
      have hn : write r (logline.length - written) = logline.length - written :=
        Nat.min_eq_right hwhole
      rw [appendLoop_goes hdone (.inr hwhole), reported_cons, hn, ← Nat.add_assoc,
        ih (by omega), Nat.sub_eq_zero_of_le hwhole,
        show logline.length - (written + (logline.length - written)) = 0 by omega]
      simp only [not_failsPartway_zero, Nat.not_lt.mpr hwhole, and_false, or_false]
    have hshort : r.count < logline.length - written := Nat.not_le.mp hwhole
    cases herror : r.error with
    | true =>
      -- What the write that fails reported is left out.
      rw [appendLoop_fails hdone hshort herror]
      simp only [Option.some.injEq, forall_eq', reported_cons, reported_nil, Bool.true_eq_false,
        false_and, or_false, true_and]
      omega
    | false =>
      -- After a short write the rest is offered.
      have hn : write r (logline.length - written) = r.count :=
        Nat.min_eq_left (Nat.le_of_lt hshort)
      rw [appendLoop_goes hdone (.inl herror), reported_cons, hn, ← Nat.add_assoc,
        ih (by omega), ← Nat.sub_sub]
      simp only [Bool.false_eq_true, false_and, false_or, true_and]

end Rounds

/-- **When the account is right.** `writtenBytes_` grows by what was reported exactly if the
line does not end in a write that failed partway; bytes are offered in order in any case. -/
theorem accounts_iff (f : AppendFile) (logline : Bytes) (results : List WriteResult) :
    f.Accounts logline results ↔ ¬ FailsPartway logline.length results := by
  have hloop := appendLoop_counted (Nat.zero_le logline.length) results
  rw [Nat.sub_zero] at hloop
  rw [← hloop]
  constructor
  · intro h w hw
    have hcall : f.append logline results =
        .ok { f with writtenBytes := f.writtenBytes + w } := by
      rw [append, hw]
      rfl
    have hcounted := h.counted _ hcall
    rw [Nat.zero_add]
    exact Nat.add_left_cancel hcounted
  · intro h
    refine ⟨?_, ?_⟩
    · intro f' hf'
      unfold append at hf'
      split at hf'
      · rename_i w hw
        cases hf'
        rw [h w hw, Nat.zero_add]
        rfl
      · cases hf'
    · intro pre o post heq
      rw [appendLoop_inOrder heq, Nat.zero_add]

/-- One byte of three is written before the disk is full: it is not counted. -/
theorem accounts_fails :
    ¬ (⟨ascii "a.log", 0⟩ : AppendFile).Accounts (ascii "abc") [⟨1, true⟩] := by
  intro h
  have hcounted := h.counted ⟨ascii "a.log", 0⟩ rfl
  cases hcounted

/-! ## Writes that succeed -/

/-- The results of writes that succeed: none has an error, and they take `len` bytes. -/
def Succeed (len : Nat) (results : List WriteResult) : Prop :=
  (∀ r ∈ results, r.error = false) ∧ len ≤ (results.map WriteResult.count).sum

theorem appendLoop_succeed {logline : Bytes} {written : Nat} {results : List WriteResult}
    (hle : written ≤ logline.length) (h : Succeed (logline.length - written) results) :
    (appendLoop logline written results).2 = some logline.length := by
  induction results generalizing written with
  | nil =>
    have hsum := h.2
    rw [List.map_nil, List.sum_nil] at hsum
    have hdone : written = logline.length := by omega
    rw [appendLoop_done hdone, hdone]
  | cons r results ih =>
    by_cases hdone : written = logline.length
    · rw [appendLoop_done hdone, hdone]
    · obtain ⟨herror, hsum⟩ := h
      rw [List.map_cons, List.sum_cons] at hsum
      have hn : write r (logline.length - written) = min r.count (logline.length - written) := rfl
      rw [appendLoop_goes hdone (.inl (herror r List.mem_cons_self))]
      refine ih (by omega) ⟨?_, by omega⟩
      intro q hq
      exact herror q (List.mem_cons_of_mem _ hq)

/-- Then the whole line is written and counted. -/
theorem append_succeed (f : AppendFile) {logline : Bytes} {results : List WriteResult}
    (h : Succeed logline.length results) :
    f.append logline results =
      .ok { f with writtenBytes := f.writtenBytes + logline.length } := by
  rw [append, appendLoop_succeed (Nat.zero_le _) h]
  rfl

end AppendFile

end ClyServer
