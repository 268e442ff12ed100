import Mathlib.Data.List.Induction
import Mathlib.Tactic.Common

/-!
# Labelled systems with faults

A component of the server is driven from outside: calls, poll events, results
of system calls. `System` is that shape and nothing more: which labels may
occur in a state, and what a label does, where doing it may end in a fault (a
failed assertion, an access out of range) after which there is no state.

A run is the list of labels taken, and it is built at its end (`Run.snoc`), so
the states a run passes through are exactly the ends of its prefixes and "in
every state reached" needs no second quantifier. The rules are the ones the
developments above use by name: `Run.history` (an invariant that may mention
the labels taken so far), `Run.along` (one that holds on the way of a given
run), `Run.safe` (only excused faults), `Run.total` (none at all), `Run.decreases`
and `exists_run_stuck` (a measure that goes down), `Run.only` (a run that does without
some labels is one of the system without them) and `Run.cons` (how a concrete run
is put together). Where a step is a longer computation, `Ends` says what it answers
and which faults it can end in, and composes.
-/

namespace ClyServer.Lib

universe u v w

/-- A system: the labels a state allows, and the step a label takes. A step
answers the next state or the fault that ended the run. -/
structure System (σ : Type u) (ℓ : Type v) (ε : Type w) where
  enabled : σ → ℓ → Prop
  step : σ → ℓ → Except ε σ

namespace System

variable {σ : Type u} {ℓ : Type v} {ε : Type w} {S : System σ ℓ ε}

/-- `S.Run s ls r`: from `s` the labels `ls` were taken one after the other,
each one enabled, and the last step left the outcome `r`. A fault ends the
run: only a state is extended. -/
inductive Run (S : System σ ℓ ε) (s : σ) : List ℓ → Except ε σ → Prop
  | nil : Run S s [] (.ok s)
  | snoc {ls : List ℓ} {t : σ} {l : ℓ} :
      Run S s ls (.ok t) → S.enabled t l → Run S s (ls ++ [l]) (S.step t l)

/-- The empty run is where it started. -/
theorem run_nil_iff {s : σ} {r : Except ε σ} : S.Run s [] r ↔ r = .ok s := by
  constructor
  · intro h
    generalize hls : ([] : List ℓ) = ls at h
    cases h with
    | nil => rfl
    | snoc _ _ => simp at hls
  · rintro rfl
    exact .nil

/-- The last step of a run, read off its labels. -/
theorem run_snoc_iff {s : σ} {ls : List ℓ} {l : ℓ} {r : Except ε σ} :
    S.Run s (ls ++ [l]) r ↔
      ∃ t, S.Run s ls (.ok t) ∧ S.enabled t l ∧ r = S.step t l := by
  constructor
  · intro h
    generalize hls : ls ++ [l] = ls' at h
    cases h with
    | nil => simp at hls
    | @snoc ls₀ t l₀ hrun hen =>
      obtain ⟨rfl, hl⟩ := List.append_inj' hls rfl
      obtain rfl : l = l₀ := by simpa using hl
      exact ⟨t, hrun, hen, rfl⟩
  · intro hlast
    obtain ⟨t, hrun, hen, rfl⟩ := hlast
    exact .snoc hrun hen

/-- A label in front of a run. -/
theorem Run.cons {s t : σ} {l : ℓ} {ls : List ℓ} {r : Except ε σ}
    (hen : S.enabled s l) (hstep : S.step s l = .ok t) (h : S.Run t ls r) :
    S.Run s (l :: ls) r := by
  induction h with
  | nil =>
    have := Run.snoc (S := S) (.nil (s := s)) hen
    rwa [hstep] at this
  | snoc _ hen' ih => exact .snoc ih hen'

/-- Labels determine the run: the same labels from the same state end alike. -/
theorem Run.unique {s : σ} {ls : List ℓ} {r r' : Except ε σ}
    (h : S.Run s ls r) (h' : S.Run s ls r') : r = r' := by
  induction h generalizing r' with
  | nil => exact (run_nil_iff.mp h').symm
  | snoc _ _ ih =>
    obtain ⟨t', hrun', _, rfl⟩ := run_snoc_iff.mp h'
    cases ih hrun'
    rfl

/-- A run that went past a label went through the state before it. -/
theorem Run.split {s : σ} {pre post : List ℓ} {r : Except ε σ}
    (h : S.Run s (pre ++ post) r) : post = [] ∨ ∃ t, S.Run s pre (.ok t) := by
  induction post using List.reverseRecOn generalizing r with
  | nil => exact .inl rfl
  | append_singleton post l ih =>
    rw [← List.append_assoc] at h
    obtain ⟨t, hrun, _, _⟩ := run_snoc_iff.mp h
    rcases ih hrun with rfl | hpre
    · rw [List.append_nil] at hrun
      exact .inr ⟨t, hrun⟩
    · exact .inr hpre

/-- A run in two parts: the second one goes on from where the first one led. -/
theorem run_append_ok_iff {s u : σ} {pre post : List ℓ} :
    S.Run s (pre ++ post) (.ok u) ↔ ∃ t, S.Run s pre (.ok t) ∧ S.Run t post (.ok u) := by
  induction post using List.reverseRecOn generalizing u with
  | nil =>
    rw [List.append_nil]
    constructor
    · intro h
      exact ⟨u, h, .nil⟩
    · intro h
      obtain ⟨t, hpre, hpost⟩ := h
      cases run_nil_iff.mp hpost
      exact hpre
  | append_singleton post l ih =>
    rw [← List.append_assoc, run_snoc_iff]
    constructor
    · intro h
      obtain ⟨v, hv, hen, hu⟩ := h
      obtain ⟨t, hpre, hpost⟩ := ih.mp hv
      exact ⟨t, hpre, run_snoc_iff.mpr ⟨v, hpost, hen, hu⟩⟩
    · intro h
      obtain ⟨t, hpre, hpost⟩ := h
      obtain ⟨v, hv, hen, hu⟩ := run_snoc_iff.mp hpost
      exact ⟨v, ih.mpr ⟨t, hpre, hv⟩, hen, hu⟩

/-- The first step of a run. -/
theorem run_cons_ok_iff {s u : σ} {l : ℓ} {ls : List ℓ} :
    S.Run s (l :: ls) (.ok u) ↔ ∃ t, S.enabled s l ∧ S.step s l = .ok t ∧ S.Run t ls (.ok u) := by
  constructor
  · intro h
    rw [← List.singleton_append, run_append_ok_iff] at h
    obtain ⟨t, ht, hrest⟩ := h
    rw [← List.nil_append [l], run_snoc_iff] at ht
    obtain ⟨s', hs', hen, hstep⟩ := ht
    cases run_nil_iff.mp hs'
    exact ⟨t, hen, hstep.symm, hrest⟩
  · intro h
    obtain ⟨t, hen, hstep, hrest⟩ := h
    exact hrest.cons hen hstep

/-- A label of a run was taken from a state that allowed it. -/
theorem Run.taken {s : σ} {pre ls : List ℓ} {l : ℓ} {r : Except ε σ} (h : S.Run s ls r)
    (hpre : pre ++ [l] <+: ls) : ∃ t, S.Run s pre (.ok t) ∧ S.enabled t l := by
  obtain ⟨post, rfl⟩ := hpre
  rcases h.split with rfl | ⟨u, hu⟩
  · rw [List.append_nil] at h
    obtain ⟨t, ht, hen, _⟩ := run_snoc_iff.mp h
    exact ⟨t, ht, hen⟩
  · obtain ⟨t, ht, hen, _⟩ := run_snoc_iff.mp hu
    exact ⟨t, ht, hen⟩

/-- The system with only some of its labels. -/
def only (S : System σ ℓ ε) (p : ℓ → Prop) : System σ ℓ ε where
  enabled := fun s l => S.enabled s l ∧ p l
  step := S.step

/-- A run that takes no others is a run of it. -/
theorem Run.only {p : ℓ → Prop} {s : σ} {ls : List ℓ} {r : Except ε σ} (h : S.Run s ls r)
    (hp : ∀ l ∈ ls, p l) : (S.only p).Run s ls r := by
  induction h with
  | nil => exact .nil
  | snoc _ hen ih =>
    rw [List.forall_mem_append, List.forall_mem_singleton] at hp
    exact .snoc (S := S.only p) (ih hp.1) ⟨hen, hp.2⟩

/-! ## The rules -/

/-- **Invariants over histories.** What holds of the start with no label taken
and is kept by every enabled step holds of every run: the invariant may
mention the labels taken so far. -/
theorem Run.history {s : σ} {I : List ℓ → σ → Prop} (hstart : I [] s)
    (hstep : ∀ ls t l u, I ls t → S.enabled t l → S.step t l = .ok u → I (ls ++ [l]) u)
    {ls : List ℓ} {t : σ} (h : S.Run s ls (.ok t)) : I ls t := by
  generalize hr : (Except.ok t : Except ε σ) = r at h
  induction h generalizing t with
  | nil => cases hr; exact hstart
  | snoc _ hen ih => exact hstep _ _ _ _ (ih rfl) hen hr.symm

/-- **Along a run.** What holds of the start and is kept by every step that the
labels take holds wherever they have led so far. -/
theorem Run.along {s : σ} {ls : List ℓ} {I : σ → Prop} (hstart : I s)
    (hstep : ∀ pre l t u, pre ++ [l] <+: ls → S.Run s pre (.ok t) → I t → S.enabled t l →
      S.step t l = .ok u → I u)
    {pre : List ℓ} {t : σ} (hpre : pre <+: ls) (h : S.Run s pre (.ok t)) : I t := by
  induction pre using List.reverseRecOn generalizing t with
  | nil =>
    cases run_nil_iff.mp h
    exact hstart
  | append_singleton pre l ih =>
    obtain ⟨u, hu, hen, ht⟩ := run_snoc_iff.mp h
    have hbefore := ih ((List.prefix_append pre [l]).trans hpre) hu
    exact hstep pre l u t hpre hu hbefore hen ht.symm

/-- **Safety.** If every enabled step out of the invariant answers a state of the
invariant or ends in an excused fault, so does every run. -/
theorem Run.safe {s : σ} {I : List ℓ → σ → Prop} {excused : ε → Prop} (hstart : I [] s)
    (hstep : ∀ ls t l, I ls t → S.enabled t l →
      (∃ u, S.step t l = .ok u ∧ I (ls ++ [l]) u) ∨ ∃ e, S.step t l = .error e ∧ excused e)
    {ls : List ℓ} {r : Except ε σ} (h : S.Run s ls r) :
    (∃ t, r = .ok t ∧ I ls t) ∨ ∃ e, r = .error e ∧ excused e := by
  induction h with
  | nil => exact .inl ⟨s, rfl, hstart⟩
  | snoc _ hen ih =>
    rcases ih with ⟨t, ht, hI⟩ | ⟨e, he, _⟩
    · cases ht
      exact hstep _ _ _ hI hen
    · cases he

/-- **Totality.** If every enabled step out of the invariant answers a state of
the invariant, no run faults and every run ends in it. -/
theorem Run.total {s : σ} {I : List ℓ → σ → Prop} (hstart : I [] s)
    (hstep : ∀ ls t l, I ls t → S.enabled t l → ∃ u, S.step t l = .ok u ∧ I (ls ++ [l]) u)
    {ls : List ℓ} {r : Except ε σ} (h : S.Run s ls r) : ∃ t, r = .ok t ∧ I ls t := by
  have hsafe : (∃ t, r = .ok t ∧ I ls t) ∨ ∃ e, r = .error e ∧ False :=
    h.safe hstart fun ls t l hI hen => .inl (hstep ls t l hI hen)
  rcases hsafe with hok | ⟨_, _, hfalse⟩
  · exact hok
  · exact hfalse.elim

/-! ## Runs that end -/

section Decreasing

variable {I : σ → Prop} {w : σ → Nat} {p : ℓ → Prop}

/-- **Termination.** If steps of one kind keep the invariant and take something off the measure,
a run of them is no longer than the measure it began with, and does not fault. -/
theorem Run.decreases
    (hstep : ∀ t l, I t → p l → S.enabled t l → ∃ u, S.step t l = .ok u ∧ I u ∧ w u < w t)
    {s : σ} {ls : List ℓ} {r : Except ε σ} (h : S.Run s ls r) (hstart : I s)
    (hp : ∀ l ∈ ls, p l) : ∃ t, r = .ok t ∧ I t ∧ ls.length + w t ≤ w s := by
  induction h with
  | nil => exact ⟨s, rfl, hstart, by simp⟩
  | snoc hrun hen ih =>
    rename_i ls t l
    obtain ⟨t', ht, hI, hlength⟩ := ih fun k hk => hp k (List.mem_append_left _ hk)
    cases ht
    have hl : p l := hp l (List.mem_append_right _ (List.mem_singleton_self l))
    obtain ⟨u, hu, hI', hless⟩ := hstep _ _ hI hl hen
    refine ⟨u, hu, hI', ?_⟩
    rw [List.length_append, List.length_singleton]
    omega

/-- And some run of them goes on until none is left to take. -/
theorem exists_run_stuck
    (hstep : ∀ t l, I t → p l → S.enabled t l → ∃ u, S.step t l = .ok u ∧ I u ∧ w u < w t)
    {s : σ} (hstart : I s) : ∃ ls t, S.Run s ls (.ok t) ∧ (∀ l ∈ ls, p l) ∧ I t ∧
      ∀ l, p l → ¬ S.enabled t l := by
  induction hw : w s using Nat.strongRecOn generalizing s with
  | ind n ih =>
    by_cases hstuck : ∀ l, p l → ¬ S.enabled s l
    · exact ⟨[], s, .nil, by simp, hstart, hstuck⟩
    · push Not at hstuck
      obtain ⟨l, hl, hen⟩ := hstuck
      obtain ⟨u, hu, hI, hless⟩ := hstep s l hstart hl hen
      obtain ⟨ls, t, hrun, hp, hend⟩ := ih (w u) (hw ▸ hless) hI rfl
      exact ⟨l :: ls, t, .cons hen hu hrun, List.forall_mem_cons.mpr ⟨hl, hp⟩, hend⟩

end Decreasing

/-! ## Outcomes of a step -/

/-- An outcome: a value of which `P` holds, or a fault of which `Q` does. -/
def Ends {α : Type u} (r : Except ε α) (P : α → Prop) (Q : ε → Prop) : Prop :=
  match r with
  | .ok a => P a
  | .error e => Q e

theorem Ends.mono {α : Type u} {r : Except ε α} {P P' : α → Prop} {Q Q' : ε → Prop}
    (h : Ends r P Q) (hP : ∀ a, P a → P' a) (hQ : ∀ e, Q e → Q' e) : Ends r P' Q' := by
  cases r with
  | ok a => exact hP a h
  | error e => exact hQ e h

/-- The same faults, and less said of the answer. -/
theorem Ends.imp {α : Type u} {r : Except ε α} {P P' : α → Prop} {Q : ε → Prop}
    (h : Ends r P Q) (hP : ∀ a, P a → P' a) : Ends r P' Q := h.mono hP fun _ he => he

theorem Ends.bind {α β : Type u} {x : Except ε α} {f : α → Except ε β} {P : α → Prop}
    {P' : β → Prop} {Q : ε → Prop} (h : Ends x P Q) (hf : ∀ a, P a → Ends (f a) P' Q) :
    Ends (x >>= f) P' Q := by
  cases x with
  | ok a => exact hf a h
  | error e => exact h

/-- A loop whose body keeps `I`. -/
theorem ends_foldlM {α : Type v} {β : Type u} {f : β → α → Except ε β} {I : β → Prop}
    {Q : ε → Prop} (hf : ∀ b a, I b → Ends (f b a) I Q) (l : List α) {b : β} (hb : I b) :
    Ends (l.foldlM f b) I Q := by
  induction l generalizing b with
  | nil => exact hb
  | cons a l ih =>
    rw [List.foldlM_cons]
    exact (hf b a hb).bind fun b' hb' => ih hb'

/-- A loop whose body relates the states around it by what it adds to a trace. -/
theorem ends_foldlM_trace {α : Type v} {β : Type u} {γ : Type w} {f : β → α → Except ε β}
    {g : α → List γ} {R : β → List γ → β → Prop} {I : β → Prop} {Q : ε → Prop}
    (hrefl : ∀ b, I b → R b [] b)
    (htrans : ∀ b b' b'' x y, R b x b' → R b' y b'' → R b (x ++ y) b'')
    (hI : ∀ b x b', R b x b' → I b') (l : List α)
    (hf : ∀ b, ∀ a ∈ l, I b → Ends (f b a) (R b (g a)) Q) {b : β} (hb : I b) :
    Ends (l.foldlM f b) (R b (l.flatMap g)) Q := by
  induction l generalizing b with
  | nil => exact hrefl b hb
  | cons a l ih =>
    rw [List.foldlM_cons]
    refine (hf b a List.mem_cons_self hb).bind fun b' hb' => ?_
    have hrest := ih (fun c a' ha' => hf c a' (List.mem_cons_of_mem a ha')) (hI b _ b' hb')
    exact hrest.mono (fun b'' hb'' => htrans _ _ _ _ _ hb' hb'') fun _ he => he

/-- **Safety, by outcomes.** If every enabled step out of the invariant ends in it or in an
excused fault, so does every run. -/
theorem Run.ends {s : σ} {I : σ → Prop} {excused : ε → Prop} (hstart : I s)
    (hstep : ∀ t l, I t → S.enabled t l → Ends (S.step t l) I excused) {ls : List ℓ}
    {r : Except ε σ} (h : S.Run s ls r) : Ends r I excused := by
  induction h with
  | nil => exact hstart
  | snoc _ hen ih => exact hstep _ _ ih hen

/-! ## Running labels -/

/-- Take the labels one after the other, refusing (`none`) a label that is not
enabled and any label after a fault. -/
def exec (S : System σ ℓ ε) [∀ s l, Decidable (S.enabled s l)] :
    σ → List ℓ → Option (Except ε σ)
  | s, [] => some (.ok s)
  | s, l :: ls =>
    if S.enabled s l then
      match S.step s l with
      | .ok t => exec S t ls
      | .error e => if ls.isEmpty then some (.error e) else none
    else none

/-- What `exec` computes is a run. -/
theorem run_of_exec [∀ s l, Decidable (S.enabled s l)] {s : σ} {ls : List ℓ}
    {r : Except ε σ} (h : S.exec s ls = some r) : S.Run s ls r := by
  induction ls generalizing s with
  | nil =>
    cases h
    exact .nil
  | cons l ls ih =>
    unfold exec at h
    split at h
    · rename_i hen
      split at h
      · rename_i t hstep
        exact (ih h).cons hen hstep
      · rename_i e hstep
        split at h
        · rename_i hnil
          cases h
          rw [List.isEmpty_iff.mp hnil, ← hstep]
          exact .snoc (.nil (s := s)) hen
        · cases h
    · cases h

/-- The fault the labels end in. -/
def fault (S : System σ ℓ ε) [∀ s l, Decidable (S.enabled s l)] (s : σ) (ls : List ℓ) : Option ε :=
  match S.exec s ls with
  | some (.error e) => some e
  | _ => none

theorem run_of_fault [∀ s l, Decidable (S.enabled s l)] {s : σ} {ls : List ℓ} {e : ε}
    (h : S.fault s ls = some e) : S.Run s ls (.error e) := by
  unfold fault at h
  split at h
  · rename_i e' hexec
    cases h
    exact run_of_exec hexec
  · cases h

/-- Whether the labels lead to a state of which `P` holds. -/
def reaches (S : System σ ℓ ε) [∀ s l, Decidable (S.enabled s l)] (s : σ) (ls : List ℓ)
    (P : σ → Prop) [DecidablePred P] : Bool :=
  match S.exec s ls with
  | some (.ok t) => decide (P t)
  | _ => false

theorem run_of_reaches [∀ s l, Decidable (S.enabled s l)] {s : σ} {ls : List ℓ} {P : σ → Prop}
    [DecidablePred P] (h : S.reaches s ls P = true) : ∃ t, S.Run s ls (.ok t) ∧ P t := by
  unfold reaches at h
  split at h
  · rename_i t hexec
    exact ⟨t, run_of_exec hexec, of_decide_eq_true h⟩
  · cases h

/-- Whether `P` holds of every label and the state it is taken from, as far as the labels
lead. -/
def checks (S : System σ ℓ ε) (P : σ → ℓ → Bool) : σ → List ℓ → Bool
  | _, [] => true
  | s, l :: ls => P s l && match S.step s l with
    | .ok t => checks S P t ls
    | .error _ => true

theorem checks_run {P : σ → ℓ → Bool} {s t : σ} {ls pre : List ℓ} {l : ℓ}
    (h : S.checks P s ls = true) (hpre : pre ++ [l] <+: ls) (hrun : S.Run s pre (.ok t)) :
    P t l = true := by
  induction ls generalizing s pre with
  | nil => simp at hpre
  | cons m ls ih =>
    rw [checks, Bool.and_eq_true] at h
    cases pre with
    | nil =>
      obtain ⟨rfl, -⟩ := List.cons_prefix_cons.mp hpre
      cases run_nil_iff.mp hrun
      exact h.1
    | cons k pre =>
      obtain ⟨rfl, hpre'⟩ := List.cons_prefix_cons.mp hpre
      obtain ⟨u, -, hstep, hrest⟩ := run_cons_ok_iff.mp hrun
      exact ih (by simpa only [hstep] using h.2) hpre' hrest

end System

end ClyServer.Lib
