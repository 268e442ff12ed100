import Mathlib.Logic.Function.Basic
import Mathlib.Tactic.Common

/-!
# Keyed maps and dense tables

Two ways to keep the members of a set.

`Keyed m R key`: a map from keys that holds each member of `R` under its own key
and nothing else. Inserting asks that no member has the new one's key; erasing a
member's key erases the member.

`Dense l R pos D`: an array without holes whose entries are owned, each owner
knowing the position of its entry (`pos`), and `D` saying what the entry of an
owner must be. Removing an entry moves the last one into the gap, so removal is
constant time and one other owner's position changes. The rules are one per
change of the array: an entry pushed, rewritten, popped, or filled from the end.
-/

namespace ClyServer.Lib

variable {α β κ : Type*}

/-! ## Keyed maps -/

/-- What a map with one key rewritten holds is what was written, or was there before. -/
theorem update_eq_some [DecidableEq β] {m : β → Option κ} {k b : β} {v : Option κ} {c : κ}
    (h : Function.update m k v b = some c) : b = k ∧ v = some c ∨ m b = some c := by
  by_cases hb : b = k
  · subst hb
    rw [Function.update_self] at h
    exact .inl ⟨rfl, h⟩
  · rw [Function.update_of_ne hb] at h
    exact .inr h

/-- The map holds exactly the members, each under its key. -/
def Keyed (m : β → Option κ) (R : κ → Prop) (key : κ → β) : Prop :=
  ∀ b c, m b = some c ↔ R c ∧ key c = b

namespace Keyed

variable {m : β → Option κ} {R : κ → Prop} {key key' : κ → β} {c : κ}

theorem nil : Keyed (fun _ => none) (fun _ => False) key :=
  fun _ _ => ⟨fun h => (nomatch h), fun h => h.1.elim⟩

theorem congr (h : Keyed m R key) (hkey : ∀ d, key' d = key d) : Keyed m R key' := by
  intro b d
  rw [hkey]
  exact h b d

theorem of_iff {R' : κ → Prop} (h : Keyed m R key) (hR : ∀ d, R d ↔ R' d) : Keyed m R' key := by
  intro b d
  rw [h b d, hR d]

/-- A member is found under its key. -/
theorem find (h : Keyed m R key) (hc : R c) : m (key c) = some c := (h _ _).mpr ⟨hc, rfl⟩

/-- Two members with one key are one member. -/
theorem inj (h : Keyed m R key) {d : κ} (hc : R c) (hd : R d) (heq : key c = key d) : c = d := by
  have hfind := h.find hd
  rw [← heq, h.find hc] at hfind
  exact Option.some.inj hfind

theorem insert [DecidableEq β] (h : Keyed m R key) (hfree : ∀ d, R d → key d ≠ key c) :
    Keyed (Function.update m (key c) (some c)) (fun d => d = c ∨ R d) key := by
  intro b d
  by_cases hb : b = key c
  · subst hb
    rw [Function.update_self, Option.some_inj]
    constructor
    · rintro rfl
      exact ⟨.inl rfl, rfl⟩
    · rintro ⟨rfl | hd, hkey⟩
      · rfl
      · exact absurd hkey (hfree d hd)
  · rw [Function.update_of_ne hb, h b d]
    constructor
    · intro hmem
      obtain ⟨hd, hkey⟩ := hmem
      exact ⟨.inr hd, hkey⟩
    · rintro ⟨rfl | hd, hkey⟩
      · exact absurd hkey.symm hb
      · exact ⟨hd, hkey⟩

theorem erase [DecidableEq β] (h : Keyed m R key) (hc : R c) :
    Keyed (Function.update m (key c) none) (fun d => R d ∧ d ≠ c) key := by
  intro b d
  by_cases hb : b = key c
  · subst hb
    rw [Function.update_self]
    refine ⟨fun hd => (nomatch hd), fun hd => ?_⟩
    exact absurd (h.inj hd.1.1 hc hd.2) hd.1.2
  · rw [Function.update_of_ne hb, h b d]
    constructor
    · intro hmem
      obtain ⟨hd, hkey⟩ := hmem
      refine ⟨⟨hd, ?_⟩, hkey⟩
      rintro rfl
      exact hb hkey.symm
    · intro hmem
      obtain ⟨⟨hd, _⟩, hkey⟩ := hmem
      exact ⟨hd, hkey⟩

end Keyed

/-! ## Dense tables -/

/-- The owners' positions are those of the array, one each, and every owner's
entry is as described. Positions are integers: an owner without an entry may
keep any number, and a negative one by convention. -/
structure Dense (l : List α) (R : κ → Prop) (pos : κ → Int) (D : κ → α → Prop) : Prop where
  lower : ∀ c, R c → 0 ≤ pos c
  described : ∀ c, R c → ∃ x, l[(pos c).toNat]? = some x ∧ D c x
  inj : ∀ c d, R c → R d → pos c = pos d → c = d
  onto : ∀ i, i < l.length → ∃ c, R c ∧ pos c = i

namespace Dense

variable {l : List α} {R : κ → Prop} {pos pos' : κ → Int} {D D' : κ → α → Prop} {c : κ}

/-- An owner's position is one of the array's. -/
theorem pos_lt (h : Dense l R pos D) (hc : R c) : (pos c).toNat < l.length := by
  obtain ⟨x, hx, _⟩ := h.described c hc
  exact (List.getElem?_eq_some_iff.mp hx).1

/-- The table of no owner. -/
theorem nil : Dense ([] : List α) (fun _ : κ => False) pos D where
  lower := fun _ h => h.elim
  described := fun _ h => h.elim
  inj := fun _ _ h => h.elim
  onto := fun i h => absurd h (Nat.not_lt_zero i)

/-- What owners keep and what is asked of their entries may be told in other
words, as far as it concerns owners. -/
theorem congr (h : Dense l R pos D) (hpos : ∀ d, R d → pos' d = pos d)
    (hdesc : ∀ d x, R d → D d x → D' d x) : Dense l R pos' D' where
  lower := fun d hd => by
    rw [hpos d hd]
    exact h.lower d hd
  described := fun d hd => by
    obtain ⟨x, hx, hD⟩ := h.described d hd
    exact ⟨x, by rw [hpos d hd]; exact hx, hdesc d x hd hD⟩
  inj := fun d e hd he heq => h.inj d e hd he (by rw [← hpos d hd, ← hpos e he]; exact heq)
  onto := fun i hi => by
    obtain ⟨d, hd, hdi⟩ := h.onto i hi
    exact ⟨d, hd, by rw [hpos d hd]; exact hdi⟩

/-- A new owner takes the next position. -/
theorem push {x : α} (h : Dense l R pos D) (hc : pos c = l.length) (hD : D c x) :
    Dense (l ++ [x]) (fun d => d = c ∨ R d) pos D where
  lower := by
    rintro d (rfl | hd)
    · rw [hc]
      exact Int.natCast_nonneg _
    · exact h.lower d hd
  described := by
    rintro d (rfl | hd)
    · refine ⟨x, ?_, hD⟩
      rw [hc]
      exact List.getElem?_concat_length
    · obtain ⟨y, hy, hDy⟩ := h.described d hd
      exact ⟨y, by rw [List.getElem?_append_left (h.pos_lt hd)]; exact hy, hDy⟩
  inj := by
    rintro d e (rfl | hd) (rfl | he) heq
    · rfl
    · have hlt := h.pos_lt he
      omega
    · have hlt := h.pos_lt hd
      omega
    · exact h.inj d e hd he heq
  onto := by
    intro i hi
    rw [List.length_append, List.length_singleton] at hi
    by_cases hlast : i = l.length
    · exact ⟨c, .inl rfl, by rw [hc, hlast]⟩
    · obtain ⟨d, hd, hdi⟩ := h.onto i (by omega)
      exact ⟨d, .inr hd, hdi⟩

/-- Other owners' positions are other positions. -/
theorem pos_ne (h : Dense l R pos D) {d : κ} (hc : R c) (hd : R d) (hne : d ≠ c) :
    (pos d).toNat ≠ (pos c).toNat := by
  intro heq
  have hlc := h.lower c hc
  have hld := h.lower d hd
  exact hne (h.inj d c hd hc (by omega))

/-- An owner's entry is rewritten. -/
theorem set {x : α} (h : Dense l R pos D) (hc : R c) (hD : D' c x)
    (hdesc : ∀ d y, d ≠ c → R d → D d y → D' d y) :
    Dense (l.set (pos c).toNat x) R pos D' where
  lower := h.lower
  described := by
    intro d hd
    by_cases hdc : d = c
    · subst hdc
      exact ⟨x, List.getElem?_set_self (h.pos_lt hd), hD⟩
    · obtain ⟨y, hy, hDy⟩ := h.described d hd
      refine ⟨y, ?_, hdesc d y hdc hd hDy⟩
      rw [List.getElem?_set_ne (h.pos_ne hc hd hdc).symm]
      exact hy
  inj := h.inj
  onto := fun i hi => h.onto i (by rw [List.length_set] at hi; exact hi)

/-- The other entries are where they were after the last one is gone. -/
theorem getElem?_pop (h : Dense l R pos D) (hc : R c) (hlast : (pos c).toNat = l.length - 1)
    {d : κ} (hd : R d) (hdc : d ≠ c) : l.dropLast[(pos d).toNat]? = l[(pos d).toNat]? := by
  have hlt := h.pos_lt hd
  have hne := h.pos_ne hc hd hdc
  rw [List.getElem?_dropLast, if_pos (by omega)]

/-- The owner of the last entry goes. -/
theorem pop (h : Dense l R pos D) (hc : R c) (hlast : (pos c).toNat = l.length - 1) :
    Dense l.dropLast (fun d => R d ∧ d ≠ c) pos D where
  lower := fun d hd => h.lower d hd.1
  described := by
    rintro d ⟨hd, hdc⟩
    rw [h.getElem?_pop hc hlast hd hdc]
    exact h.described d hd
  inj := fun d e hd he => h.inj d e hd.1 he.1
  onto := by
    intro i hi
    rw [List.length_dropLast] at hi
    obtain ⟨d, hd, hdi⟩ := h.onto i (by omega)
    refine ⟨d, ⟨hd, ?_⟩, hdi⟩
    rintro rfl
    omega

/-- What stands where after an entry was swapped with the last and popped. -/
theorem getElem?_swap_pop {i j : Nat} {x y : α} (hi : i < l.length - 1) (hj : j < l.length - 1) :
    (((l.set i y).set (l.length - 1) x).dropLast)[j]? = if j = i then some y else l[j]? := by
  rw [List.getElem?_dropLast, List.length_set, List.length_set, if_pos hj,
    List.getElem?_set_ne (by omega)]
  by_cases hij : j = i
  · subst hij
    rw [if_pos rfl, List.getElem?_set_self (by omega)]
  · rw [if_neg hij, List.getElem?_set_ne (fun heq => hij heq.symm)]

/-- Each remaining owner finds its entry at its new position. -/
theorem getElem?_fill {x y : α} {d e : κ} (h : Dense l R pos D) (hc : R c) (he : R e)
    (hlt : (pos c).toNat < l.length - 1) (hlast : (pos e).toNat = l.length - 1)
    (hy : l[l.length - 1]? = some y) (hpos : pos' e = pos c)
    (hpos' : ∀ d, d ≠ e → pos' d = pos d) (hd : R d) (hdc : d ≠ c) :
    (((l.set (pos c).toNat y).set (l.length - 1) x).dropLast)[(pos' d).toNat]? =
      l[(pos d).toNat]? := by
  by_cases hde : d = e
  · subst hde
    rw [hpos, getElem?_swap_pop hlt hlt, if_pos rfl, hlast, hy]
  · have hlen := h.pos_lt hd
    have hne := h.pos_ne he hd hde
    rw [hpos' d hde, getElem?_swap_pop hlt (by omega), if_neg (h.pos_ne hc hd hdc)]

/-- The owner of another entry goes, and the owner of the last one takes its place. -/
theorem fill {x y : α} {e : κ} (h : Dense l R pos D) (hc : R c) (he : R e)
    (hlt : (pos c).toNat < l.length - 1) (hlast : (pos e).toNat = l.length - 1)
    (hy : l[l.length - 1]? = some y) (hpos : pos' e = pos c)
    (hpos' : ∀ d, d ≠ e → pos' d = pos d) :
    Dense (((l.set (pos c).toNat y).set (l.length - 1) x).dropLast)
      (fun d => R d ∧ d ≠ c) pos' D where
  lower := by
    rintro d ⟨hd, _⟩
    by_cases hde : d = e
    · rw [hde, hpos]
      exact h.lower c hc
    · rw [hpos' d hde]
      exact h.lower d hd
  described := by
    rintro d ⟨hd, hdc⟩
    rw [h.getElem?_fill hc he hlt hlast hy hpos hpos' hd hdc]
    exact h.described d hd
  inj := by
    rintro d f ⟨hd, hdc⟩ ⟨hf, hfc⟩ heq
    by_cases hde : d = e
    · by_cases hfe : f = e
      · rw [hde, hfe]
      · rw [hde, hpos, hpos' f hfe] at heq
        exact absurd (h.inj c f hc hf heq).symm hfc
    · by_cases hfe : f = e
      · rw [hfe, hpos, hpos' d hde] at heq
        exact absurd (h.inj d c hd hc heq) hdc
      · rw [hpos' d hde, hpos' f hfe] at heq
        exact h.inj d f hd hf heq
  onto := by
    intro i hi
    rw [List.length_dropLast, List.length_set, List.length_set] at hi
    have hlc := h.lower c hc
    by_cases hic : i = (pos c).toNat
    · refine ⟨e, ⟨he, fun heq => ?_⟩, by rw [hpos, hic]; omega⟩
      rw [heq] at hlast
      omega
    · obtain ⟨d, hd, hdi⟩ := h.onto i (by omega)
      have hde : d ≠ e := by
        rintro rfl
        omega
      refine ⟨d, ⟨hd, ?_⟩, by rw [hpos' d hde]; exact hdi⟩
      rintro rfl
      omega

/-! ### Owners read off the array -/

/-- A function that answers the owner of an entry, or nothing, answers nobody else. -/
theorem owner {f : α → Option κ} (h : Dense l R pos D)
    (hf : ∀ d x, R d → l[(pos d).toNat]? = some x → f x = none ∨ f x = some d)
    {i : Nat} {x : α} (hx : l[i]? = some x) (hfx : f x = some c) : R c ∧ pos c = i := by
  obtain ⟨d, hd, hpos⟩ := h.onto i (List.getElem?_eq_some_iff.mp hx).1
  have hentry : l[(pos d).toNat]? = some x := by
    rw [hpos]
    exact hx
  rcases hf d x hd hentry with hnone | hsome
  · rw [hnone] at hfx
    cases hfx
  · rw [hsome] at hfx
    cases hfx
    exact ⟨hd, hpos⟩

/-- The owners it answers, exactly. -/
theorem mem_filterMap_iff {f : α → Option κ} (h : Dense l R pos D)
    (hf : ∀ d x, R d → l[(pos d).toNat]? = some x → f x = none ∨ f x = some d) :
    c ∈ l.filterMap f ↔ R c ∧ ∃ x, l[(pos c).toNat]? = some x ∧ f x = some c := by
  rw [List.mem_filterMap]
  constructor
  · rintro ⟨x, hmem, hfx⟩
    obtain ⟨i, hx⟩ := List.mem_iff_getElem?.mp hmem
    obtain ⟨hc, hpos⟩ := h.owner hf hx hfx
    refine ⟨hc, x, ?_, hfx⟩
    rw [hpos]
    exact hx
  · rintro ⟨_, x, hx, hfx⟩
    exact ⟨x, List.mem_of_getElem? hx, hfx⟩

/-- They come in the order of their positions. -/
theorem pairwise_filterMap {f : α → Option κ} (h : Dense l R pos D)
    (hf : ∀ d x, R d → l[(pos d).toNat]? = some x → f x = none ∨ f x = some d) :
    (l.filterMap f).Pairwise fun d e => pos d < pos e := by
  rw [List.pairwise_filterMap, List.pairwise_iff_getElem]
  intro i j hi hj hij d hd e he
  obtain ⟨_, hposd⟩ := h.owner hf (List.getElem?_eq_getElem hi) hd
  obtain ⟨_, hpose⟩ := h.owner hf (List.getElem?_eq_getElem hj) he
  omega

end Dense

end ClyServer.Lib
