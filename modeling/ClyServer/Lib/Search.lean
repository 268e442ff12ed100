import Mathlib.Data.List.Infix
import Mathlib.Data.List.TakeWhile
import Mathlib.Tactic.Common

/-!
# Searching a list

Two searches the standard library does over a range, as functions of the list
the range holds: `std::find` for one element, read as the pieces before and
after it (`splitFirst`), and `std::search` for a pattern, read as the position
of its first occurrence (`search`). Each comes with the statement that decides
it, and nothing later unfolds either.
-/

namespace ClyServer.Lib

variable {α : Type*} [DecidableEq α]

/-- The pieces before and after the first `c`, if there is one. -/
def splitFirst (c : α) : List α → Option (List α × List α)
  | [] => none
  | x :: xs =>
    if x = c then some ([], xs)
    else (splitFirst c xs).map fun p => (x :: p.1, p.2)

theorem splitFirst_eq_none_iff {c : α} {l : List α} : splitFirst c l = none ↔ c ∉ l := by
  induction l with
  | nil => simp [splitFirst]
  | cons x xs ih =>
    by_cases hx : x = c
    · simp [splitFirst, hx]
    · simp [splitFirst, hx, ih, Ne.symm hx]

/-- The split, exactly: the element separates the pieces and the first one does
not hold it. -/
theorem splitFirst_eq_some_iff {c : α} {l a b : List α} :
    splitFirst c l = some (a, b) ↔ l = a ++ c :: b ∧ c ∉ a := by
  induction l generalizing a with
  | nil => simp [splitFirst]
  | cons x xs ih =>
    by_cases hx : x = c
    · subst hx
      cases a with
      | nil => simp [splitFirst]
      | cons y a =>
        simp only [splitFirst, if_true, Option.some.injEq, Prod.mk.injEq, reduceCtorEq,
          false_and, List.cons_append, List.cons.injEq, List.mem_cons, not_or, false_iff, not_and]
        rintro ⟨rfl, _⟩ h
        exact absurd rfl h
    · cases a with
      | nil => simp [splitFirst, hx]
      | cons y a =>
        simp only [splitFirst, if_neg hx, Option.map_eq_some_iff, Prod.exists, Prod.mk.injEq,
          List.cons.injEq, List.cons_append, List.mem_cons, not_or]
        constructor
        · rintro ⟨a', b', h, ⟨rfl, rfl⟩, rfl⟩
          obtain ⟨rfl, hmem⟩ := ih.mp h
          exact ⟨⟨rfl, rfl⟩, Ne.symm hx, hmem⟩
        · rintro ⟨⟨rfl, rfl⟩, _, hmem⟩
          exact ⟨a, b, ih.mpr ⟨rfl, hmem⟩, ⟨rfl, rfl⟩, rfl⟩

/-- Where the element does not occur, the whole list is passed over. -/
theorem takeWhile_dropWhile_of_splitFirst_none {c : α} {l : List α} (h : splitFirst c l = none) :
    l.takeWhile (· ≠ c) = l ∧ l.dropWhile (· ≠ c) = [] := by
  have hne : ∀ x ∈ l, decide (x ≠ c) = true := by
    intro x hx
    exact decide_eq_true (ne_of_mem_of_not_mem hx (splitFirst_eq_none_iff.mp h))
  exact ⟨List.takeWhile_eq_self_iff.mpr hne, List.dropWhile_eq_nil_iff.mpr hne⟩

/-- The pieces are what is passed over on the way to the element and what comes
after it. -/
theorem takeWhile_dropWhile_of_splitFirst {c : α} {l a b : List α}
    (h : splitFirst c l = some (a, b)) :
    l.takeWhile (· ≠ c) = a ∧ l.dropWhile (· ≠ c) = c :: b := by
  obtain ⟨rfl, hno⟩ := splitFirst_eq_some_iff.mp h
  have hne : ∀ x ∈ a, decide (x ≠ c) = true := by
    intro x hx
    exact decide_eq_true (ne_of_mem_of_not_mem hx hno)
  rw [List.takeWhile_append_of_pos hne, List.dropWhile_append_of_pos hne]
  constructor
  · simp
  · simp

/-- Where the pattern first begins, if it occurs. -/
def search (pat : List α) : List α → Option Nat
  | [] => if pat = [] then some 0 else none
  | x :: xs => if pat <+: x :: xs then some 0 else (search pat xs).map (· + 1)

theorem search_eq_none_iff {pat l : List α} : search pat l = none ↔ ¬ pat <:+: l := by
  induction l with
  | nil => simp [search]
  | cons x xs ih =>
    by_cases hp : pat <+: x :: xs
    · simp [search, hp, List.infix_cons_iff]
    · simp [search, hp, ih, List.infix_cons_iff]

/-- A position `search` answers begins the pattern, inside the list. -/
theorem search_spec {pat l : List α} {i : Nat} (h : search pat l = some i) :
    pat <+: l.drop i ∧ i + pat.length ≤ l.length := by
  induction l generalizing i with
  | nil =>
    simp only [search] at h
    split at h
    · rename_i hp
      cases h
      simp [hp]
    · cases h
  | cons x xs ih =>
    simp only [search] at h
    split at h
    · rename_i hp
      cases h
      exact ⟨by simpa using hp, by simpa using hp.length_le⟩
    · obtain ⟨j, hj, rfl⟩ := Option.map_eq_some_iff.mp h
      obtain ⟨hpre, hle⟩ := ih hj
      refine ⟨by simpa using hpre, ?_⟩
      rw [List.length_cons]
      omega

/-- Nothing before a position `search` answers holds the pattern. -/
theorem search_first {pat l : List α} {i : Nat} (hpat : pat ≠ []) (h : search pat l = some i) :
    ¬ pat <:+: l.take i := by
  induction l generalizing i with
  | nil =>
    simp only [search, if_neg hpat] at h
    cases h
  | cons x xs ih =>
    simp only [search] at h
    split at h
    · cases h
      rw [List.take_zero, List.infix_nil]
      exact hpat
    · rename_i hp
      obtain ⟨j, hj, rfl⟩ := Option.map_eq_some_iff.mp h
      rw [List.take_succ_cons, List.infix_cons_iff]
      rintro (hfirst | hlater)
      · exact hp (hfirst.trans (List.take_prefix (j + 1) (x :: xs)))
      · exact ih hj hlater

end ClyServer.Lib
