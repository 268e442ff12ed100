import Mathlib.Data.List.Induction
import Mathlib.Tactic.Common

/-!
# Positional numerals

A row of characters names a number once it is said which digit each character
stands for. `value` reads a row, most significant digit first; a row is
`Canonical` for a number if it names it and has no zero in front of other digits.
There is exactly one such row (`Canonical.unique`), and the digits of the standard
library, under any characters, are one (`canonical_toDigits`).
-/

namespace ClyServer.Lib

/-- A base, and the digit each character stands for, if it is one. -/
structure Numerals (α : Type*) where
  base : Nat
  one_lt_base : 1 < base
  digit : α → Option Nat
  digit_lt : ∀ {c d}, digit c = some d → d < base
  digit_inj : ∀ {c c' d}, digit c = some d → digit c' = some d → c = c'

namespace Numerals

variable {α : Type*} (N : Numerals α)

/-- The number a row of digits names. The empty row counts as zero. -/
def value (text : List α) : Option Nat :=
  text.foldlM (fun n c => (N.digit c).map (N.base * n + ·)) 0

/-- A row without digits in vain. -/
structure Canonical (text : List α) (n : Nat) : Prop where
  nonempty : text ≠ []
  value : N.value text = some n
  lead : ∀ c rest, text = c :: rest → N.digit c = some 0 → rest = []

variable {N}

theorem value_snoc {text : List α} {c : α} {n : Nat} :
    N.value (text ++ [c]) = some n ↔
      ∃ m d, N.value text = some m ∧ N.digit c = some d ∧ n = N.base * m + d := by
  simp only [value, List.foldlM_append, List.foldlM_cons, List.foldlM_nil, bind_pure,
    Option.bind_eq_bind, Option.bind_eq_some_iff, Option.map_eq_some_iff]
  constructor
  · rintro ⟨m, hm, d, hd, rfl⟩
    exact ⟨m, d, hm, hd, rfl⟩
  · rintro ⟨m, d, hm, hd, rfl⟩
    exact ⟨m, hm, d, hd, rfl⟩

theorem value_nil : N.value [] = some 0 := rfl

theorem value_singleton {c : α} {n : Nat} : N.value [c] = some n ↔ N.digit c = some n := by
  rw [← List.nil_append [c], value_snoc]
  constructor
  · rintro ⟨m, d, hm, hd, rfl⟩
    obtain rfl : 0 = m := Option.some.inj hm
    rwa [Nat.mul_zero, Nat.zero_add]
  · intro h
    exact ⟨0, n, value_nil, h, by rw [Nat.mul_zero, Nat.zero_add]⟩

/-- A row that names a number begins with a digit, which is at most the number. -/
theorem digit_head {c : α} {rest : List α} {n : Nat} (h : N.value (c :: rest) = some n) :
    ∃ d, N.digit c = some d ∧ d ≤ n := by
  induction rest using List.reverseRecOn generalizing n with
  | nil => exact ⟨n, value_singleton.mp h, Nat.le_refl n⟩
  | append_singleton rest x ih =>
    rw [← List.cons_append] at h
    obtain ⟨m, e, hm, -, rfl⟩ := value_snoc.mp h
    obtain ⟨d, hd, hle⟩ := ih hm
    have hbase : 1 * m ≤ N.base * m := Nat.mul_le_mul_right m (Nat.le_of_lt N.one_lt_base)
    exact ⟨d, hd, by omega⟩

/-- A canonical row is one digit, or a canonical row that does not name zero and a
digit after it. -/
theorem Canonical.snoc_cases {text : List α} {c : α} {n : Nat} (h : N.Canonical (text ++ [c]) n) :
    (text = [] ∧ N.digit c = some n) ∨
      ∃ m d, N.Canonical text m ∧ 0 < m ∧ N.digit c = some d ∧ n = N.base * m + d := by
  obtain ⟨m, d, hm, hd, hn⟩ := value_snoc.mp h.value
  cases text with
  | nil => exact .inl ⟨rfl, value_singleton.mp h.value⟩
  | cons x xs =>
    have hlead : N.digit x ≠ some 0 := by
      intro hx
      have := h.lead x (xs ++ [c]) rfl hx
      simp at this
    refine .inr ⟨m, d, ⟨List.cons_ne_nil _ _, hm, ?_⟩, ?_, hd, hn⟩
    · rintro y rest heq hy
      cases heq
      exact absurd hy hlead
    · obtain ⟨e, he, hle⟩ := digit_head hm
      rcases Nat.eq_zero_or_pos m with rfl | hpos
      · rw [Nat.le_zero.mp hle] at he
        exact absurd he hlead
      · exact hpos

/-- **A number has one canonical row.** -/
theorem Canonical.unique {text text' : List α} {n : Nat} (h : N.Canonical text n)
    (h' : N.Canonical text' n) : text = text' := by
  have hbase := N.one_lt_base
  induction text using List.reverseRecOn generalizing text' n with
  | nil => exact absurd rfl h.nonempty
  | append_singleton text c ih =>
    rcases List.eq_nil_or_concat text' with rfl | ⟨text', c', rfl⟩
    · exact absurd rfl h'.nonempty
    rw [List.concat_eq_append] at h' ⊢
    -- The last digits are the remainder, the rows before them the quotient.
    rcases h.snoc_cases with ⟨rfl, hc⟩ | ⟨m, d, hm, hpos, hc, rfl⟩
    · rcases h'.snoc_cases with ⟨rfl, hc'⟩ | ⟨m', d', -, hpos', -, hn'⟩
      · rw [N.digit_inj hc hc']
      · have hlt := N.digit_lt hc
        have hge : N.base * 1 ≤ N.base * m' := Nat.mul_le_mul_left _ hpos'
        omega
    · have hd := N.digit_lt hc
      rcases h'.snoc_cases with ⟨-, hc'⟩ | ⟨m', d', hm', -, hc', hn'⟩
      · have hlt := N.digit_lt hc'
        have hge : N.base * 1 ≤ N.base * m := Nat.mul_le_mul_left _ hpos
        omega
      · have hd' := N.digit_lt hc'
        have hquot : m = m' := by
          have hdiv := congrArg (· / N.base) hn'
          simpa only [Nat.mul_add_div (by omega : 0 < N.base), Nat.div_eq_of_lt hd,
            Nat.div_eq_of_lt hd', Nat.add_zero] using hdiv
        subst hquot
        obtain rfl : d = d' := by omega
        rw [ih hm hm', N.digit_inj hc hc']

/-- **The digits of a number are canonical**, under any characters for them. -/
theorem canonical_toDigits {code : Char → α}
    (hcode : ∀ d, d < N.base → N.digit (code d.digitChar) = some d) (n : Nat) :
    N.Canonical ((Nat.toDigits N.base n).map code) n := by
  have hbase := N.one_lt_base
  induction n using Nat.strongRecOn with
  | ind n ih =>
    rw [Nat.toDigits_eq_if hbase]
    by_cases hn : n < N.base
    · rw [if_pos hn]
      refine ⟨by simp, value_singleton.mpr (hcode n hn), ?_⟩
      intro c rest heq _
      cases heq
      rfl
    · rw [if_neg hn, List.map_append, List.map_singleton]
      have hpos : 0 < n / N.base := Nat.div_pos (Nat.not_lt.mp hn) (by omega)
      have hquot := ih (n / N.base) (Nat.div_lt_self (by omega) hbase)
      refine ⟨by simp, ?_, ?_⟩
      · exact value_snoc.mpr ⟨_, _, hquot.value, hcode _ (Nat.mod_lt n (by omega)),
          (Nat.div_add_mod n N.base).symm⟩
      · intro c rest heq hc
        -- The front row is not empty, so it holds the leading character; were that a
        -- zero, it would be the whole front row, and the quotient would be zero.
        obtain ⟨x, xs, hxs⟩ := List.exists_cons_of_ne_nil hquot.nonempty
        rw [hxs, List.cons_append] at heq
        obtain ⟨rfl, -⟩ := List.cons.inj heq
        obtain rfl := hquot.lead x xs hxs hc
        have hvalue := hquot.value
        rw [hxs, value_singleton, hc] at hvalue
        exact absurd (Option.some.inj hvalue) (by omega)

end Numerals

end ClyServer.Lib
