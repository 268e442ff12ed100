import ClyServer.Base.LogStream
import Mathlib.Algebra.Ring.Int.Defs
import Mathlib.Algebra.Ring.Nat

/-!
# What the log stream holds

A stream's contents are a function of what was streamed and nothing else:
`accept` adds the text of a value, or leaves the contents alone if the value is not
admitted. `insert_spec` says that the code does just that, without a store outside
the buffer: for a number this rests on its text being shorter than the space the
test asked for. Memory, pointers and the digits stored backwards do not appear
above this module.
-/

namespace ClyServer

open ClyServer.Lib

/-! ## The abstract stream -/

/-- The decimal text of an integer. -/
def integerText (v : Int) : Bytes :=
  if v < 0 then 45 :: decimal v.natAbs else decimal v.natAbs

/-- The hexadecimal text of a number, in capitals. -/
def hexText (n : Nat) : Bytes := (Nat.toDigits 16 n).map fun c => c.toUpper.toNat.toUInt8

namespace Insertion

/-- The text of a value. -/
def text : Insertion → Bytes
  | bool v => ascii (if v then "1" else "0")
  | char v => [v]
  | cstring (some str) => str.bytes
  | cstring none => ascii "(NULL)"
  | string v => v
  | append data => data
  | integer v => integerText v.value
  | pointer p => ascii "0x" ++ hexText p.toNat
  | double v => v.bytes

/-- Whether a value is converted in place. -/
def isNumeric : Insertion → Bool
  | integer _ | pointer _ | double _ => true
  | _ => false

/-- The test that is made of the space left. -/
def admitted (v : Insertion) (avail : Nat) : Bool :=
  if v.isNumeric then kMaxNumericSize ≤ avail else v.text.length < avail

theorem admitted_numeric {v : Insertion} (h : v.isNumeric = true) (avail : Nat) :
    v.admitted avail = true ↔ kMaxNumericSize ≤ avail := by
  rw [admitted, if_pos h, decide_eq_true_iff]

theorem admitted_text {v : Insertion} (h : v.isNumeric = false) (avail : Nat) :
    v.admitted avail = true ↔ v.text.length < avail := by
  rw [admitted, h, if_neg Bool.false_ne_true, decide_eq_true_iff]

end Insertion

/-- The contents after a value was streamed. -/
def accept (contents : Bytes) (v : Insertion) : Bytes :=
  if v.admitted (kSmallBuffer - contents.length) then contents ++ v.text else contents

/-! ## Texts of numbers are short -/

theorem Integer.value_bounds (v : Integer) : -2 ^ 63 ≤ v.value ∧ v.value < 2 ^ 64 := by
  cases v with
  | short v | int v | long v | longLong v =>
    have hlow := v.le_toInt
    have hhigh := v.toInt_lt
    simp only [value]
    omega
  | unsignedShort v | unsignedInt v | unsignedLong v | unsignedLongLong v =>
    have hhigh := v.toNat_lt
    simp only [value]
    omega

/-- The text of an integer of any of the types has at most 20 bytes. -/
theorem length_integerText_le {v : Int} (hlow : -2 ^ 63 ≤ v) (hhigh : v < 2 ^ 64) :
    (integerText v).length ≤ 20 := by
  unfold integerText
  split
  · have habs : v.natAbs < 10000000000000000000 := by omega
    have hlen : (decimal v.natAbs).length ≤ 19 := length_decimal_le (by decide) habs
    rw [List.length_cons]
    omega
  · have habs : v.natAbs < 100000000000000000000 := by omega
    exact length_decimal_le (by decide) habs

theorem length_hexText_le (p : UInt64) : (hexText p.toNat).length ≤ 16 := by
  rw [hexText, List.length_map]
  exact (Nat.length_toDigits_le_iff (by decide) (by decide)).mpr p.toNat_lt

/-- A number's text is shorter than the space its test asks for. -/
theorem Insertion.length_text_lt {v : Insertion} (h : v.isNumeric = true) :
    v.text.length < kMaxNumericSize := by
  cases v with
  | integer v =>
    obtain ⟨hlow, hhigh⟩ := v.value_bounds
    have := length_integerText_le hlow hhigh
    exact Nat.lt_of_le_of_lt this (by decide)
  | pointer p =>
    have := length_hexText_le p
    have hlead : (ascii "0x").length = 2 := rfl
    rw [text, List.length_append, hlead, kMaxNumericSize]
    omega
  | double v => exact v.fits
  | _ => cases h

/-- The contents never fill the buffer: a byte stays free. -/
theorem length_accept_lt {contents : Bytes} (h : contents.length < kSmallBuffer) (v : Insertion) :
    (accept contents v).length < kSmallBuffer := by
  unfold accept
  split
  · rename_i htaken
    rw [List.length_append]
    cases hnum : v.isNumeric with
    | true =>
      rw [Insertion.admitted_numeric hnum] at htaken
      have := Insertion.length_text_lt hnum
      omega
    | false =>
      rw [Insertion.admitted_text hnum] at htaken
      omega
  · exact h

theorem length_foldl_accept_lt {contents : Bytes} (h : contents.length < kSmallBuffer)
    (vs : List Insertion) : (vs.foldl accept contents).length < kSmallBuffer := by
  induction vs generalizing contents with
  | nil => exact h
  | cons v vs ih => exact ih (length_accept_lt h v)

/-! ## Stores -/

namespace FixedBuffer

variable {SIZE : Nat} {b : FixedBuffer SIZE}

theorem length_contents (b : FixedBuffer SIZE) : b.contents.length = b.cur := by
  rw [contents, length_slice (b.length_data.symm ▸ b.cur_le), Nat.sub_zero]

theorem avail_eq (b : FixedBuffer SIZE) : b.avail = SIZE - b.contents.length := by
  rw [avail, length_contents]

/-- `b'` is `b` with `text` stored at `p`. -/
structure Stored (b : FixedBuffer SIZE) (p : Nat) (text : Bytes) (b' : FixedBuffer SIZE) :
    Prop where
  data : b'.data = overwrite b.data p text
  cur : b'.cur = b.cur

theorem poke_spec (b : FixedBuffer SIZE) {p : Nat} (h : p < SIZE) (c : UInt8) :
    ∃ b', b.poke p c = .ok b' ∧ b.Stored p [c] b' := by
  rw [poke, if_pos h]
  exact ⟨_, rfl, set_eq_overwrite (by rw [b.length_data]; exact h) c, rfl⟩

/-- A store right behind a store. -/
theorem Stored.append {b₁ b₂ : FixedBuffer SIZE} {p : Nat} {text more : Bytes}
    (h₁ : b.Stored p text b₁) (h₂ : b₁.Stored (p + text.length) more b₂)
    (hroom : p + text.length ≤ SIZE) : b.Stored p (text ++ more) b₂ where
  data := by
    rw [h₂.data, h₁.data, overwrite_overwrite_append (by rw [b.length_data]; exact hroom)]
  cur := h₂.cur.trans h₁.cur

theorem pokes_spec (b : FixedBuffer SIZE) {p : Nat} {text : Bytes} (h : p + text.length ≤ SIZE) :
    ∃ b', b.pokes p text = .ok b' ∧ b.Stored p text b' := by
  induction text generalizing b p with
  | nil => exact ⟨b, rfl, by simp [overwrite], rfl⟩
  | cons c rest ih =>
    rw [List.length_cons] at h
    obtain ⟨b₁, hb₁, hstored₁⟩ := b.poke_spec (show p < SIZE by omega) c
    obtain ⟨b₂, hb₂, hstored₂⟩ := ih b₁ (show p + 1 + rest.length ≤ SIZE by omega)
    refine ⟨b₂, ?_, hstored₁.append hstored₂ (show p + 1 ≤ SIZE by omega)⟩
    simp only [pokes, hb₁, ok_bind, hb₂]

theorem pokes_append (b : FixedBuffer SIZE) (p : Nat) (text more : Bytes) :
    b.pokes p (text ++ more) = b.pokes p text >>= fun b => b.pokes (p + text.length) more := by
  induction text generalizing b p with
  | nil => rfl
  | cons c rest ih =>
    simp only [List.cons_append, pokes, List.length_cons]
    cases b.poke p c with
    | error e => rfl
    | ok b₁ => rw [ok_bind, ok_bind, ih, Nat.add_assoc, Nat.add_comm 1]

/-- A text stored backwards, turned around. -/
theorem reverse_spec {b₁ : FixedBuffer SIZE} {p : Nat} {text more : Bytes}
    (h : b.Stored p (text.reverse ++ more) b₁) (hroom : p + text.length ≤ SIZE) :
    ∃ b', b₁.reverse p (p + text.length) = .ok b' ∧ b.Stored p (text ++ more) b' := by
  have hp : p ≤ b.data.length := by
    rw [b.length_data]
    omega
  have hslice : slice b₁.data p (p + text.length) = text.reverse := by
    rw [h.data, slice_take (k := p + (text.reverse ++ more).length) (by simp),
      slice_overwrite_self hp, Nat.add_sub_cancel_left,
      List.take_left' (List.length_reverse ..)]
  rw [reverse, dif_pos ⟨Nat.le_add_right .., hroom⟩]
  refine ⟨_, rfl, ?_, h.cur⟩
  change overwrite b₁.data p (slice b₁.data p (p + text.length)).reverse = _
  rw [hslice, List.reverse_reverse, h.data,
    overwrite_overwrite_front (List.length_reverse ..).symm hp]

/-- The pointer moved behind a text that was stored at it. -/
theorem add_spec {b₁ : FixedBuffer SIZE} {text more : Bytes}
    (h : b.Stored b.cur (text ++ more) b₁) (hroom : b.cur + text.length ≤ SIZE) :
    ∃ b', b₁.add text.length = .ok b' ∧ b'.contents = b.contents ++ text := by
  have hcur : b.cur ≤ b.data.length := by
    rw [b.length_data]
    exact b.cur_le
  have hlen : (slice b.data 0 b.cur ++ text).length = b.cur + text.length := by
    rw [List.length_append, length_slice hcur, Nat.sub_zero]
  rw [add, dif_pos (by rw [h.cur]; exact hroom)]
  refine ⟨_, rfl, ?_⟩
  change slice b₁.data 0 (b₁.cur + text.length) = b.contents ++ text
  rw [h.cur, h.data, slice_take (k := b.cur + (text ++ more).length) (by simp),
    slice_overwrite_append (Nat.zero_le _) hcur, Nat.sub_zero, ← List.append_assoc,
    List.take_left' hlen, contents]

end FixedBuffer

/-! ## Conversions -/

section Conversions

variable {SIZE : Nat}

/-- The loop stores the digits of the absolute value, from the least significant one
on: all the remainders have the sign of the value, and the tables are read
accordingly. -/
theorem digitLoop_eq {base : Int} (hbase : 1 < base) (digit : Int → Checked UInt8)
    (code : Char → UInt8) {i : Int}
    (hdigit : ∀ j : Int, (0 ≤ i → 0 ≤ j) →
      digit (j.tmod base) = .ok (code (Nat.digitChar (j.natAbs % base.natAbs))))
    (b : FixedBuffer SIZE) (p : Nat) :
    digitLoop hbase digit b p i =
      (b.pokes p ((Nat.toDigits base.natAbs i.natAbs).map code).reverse).map
        (·, p + (Nat.toDigits base.natAbs i.natAbs).length) := by
  induction hn : i.natAbs using Nat.strongRecOn generalizing i b p with
  | ind n ih =>
    subst hn
    have hquot : (i.tdiv base).natAbs = i.natAbs / base.natAbs := Int.natAbs_tdiv i base
    rw [digitLoop, hdigit i id, ok_bind, Nat.toDigits_eq_if (by omega)]
    by_cases hlt : i.natAbs < base.natAbs
    · have hzero : ¬ i.tdiv base ≠ 0 := by
        rw [not_not, ← Int.natAbs_eq_zero, hquot]
        exact Nat.div_eq_of_lt hlt
      rw [if_pos hlt, Nat.mod_eq_of_lt hlt]
      simp only [dif_neg hzero, List.map_cons, List.map_nil, List.reverse_singleton,
        FixedBuffer.pokes, List.length_singleton]
      cases b.poke p (code (Nat.digitChar i.natAbs)) <;> rfl
    · have hne : i.tdiv base ≠ 0 := by
        rw [← Int.natAbs_pos, hquot]
        exact Nat.div_pos (Nat.not_lt.mp hlt) (by omega)
      have hnext : ∀ j : Int, (0 ≤ i.tdiv base → 0 ≤ j) →
          digit (j.tmod base) = .ok (code (Nat.digitChar (j.natAbs % base.natAbs))) :=
        fun j hj => hdigit j fun hi => hj (Int.tdiv_nonneg hi (by omega))
      rw [if_neg hlt]
      simp only [dif_pos hne, List.map_append, List.map_cons, List.map_nil, List.reverse_append,
        List.reverse_singleton, List.singleton_append, FixedBuffer.pokes, List.length_append,
        List.length_singleton]
      cases b.poke p (code (Nat.digitChar (i.natAbs % base.natAbs))) with
      | error e => rfl
      | ok b₁ =>
        rw [ok_bind, ok_bind, ih _ (natAbs_tdiv_lt hbase hne) hnext b₁ (p + 1) rfl, hquot,
          Nat.add_assoc, Nat.add_comm 1]

theorem zero_tmod (j : Int) :
    zero (j.tmod 10) = .ok ((Nat.digitChar (j.natAbs % (10 : Int).natAbs)).toNat.toUInt8) := by
  have hall : ∀ r : Fin 19, zero ((r : Int) - 9) =
      .ok ((Nat.digitChar ((r : Int) - 9).natAbs).toNat.toUInt8) := by decide
  have habs : (j.tmod 10).natAbs = j.natAbs % (10 : Int).natAbs := Int.natAbs_tmod j 10
  have hlt : (j.tmod 10).natAbs < 10 := habs ▸ Nat.mod_lt _ (by decide)
  rw [← habs]
  have hr := hall ⟨(j.tmod 10 + 9).toNat, by omega⟩
  rwa [show (((j.tmod 10 + 9).toNat : Int)) - 9 = j.tmod 10 by omega] at hr

theorem digitsHex_tmod {j : Int} (hj : 0 ≤ j) :
    charAt digitsHex (j.tmod 16) =
      .ok ((Nat.digitChar (j.natAbs % (16 : Int).natAbs)).toUpper.toNat.toUInt8) := by
  have hall : ∀ r : Fin 16, charAt digitsHex (r : Int) =
      .ok ((Nat.digitChar r).toUpper.toNat.toUInt8) := by decide
  have habs : (j.tmod 16).natAbs = j.natAbs % (16 : Int).natAbs := Int.natAbs_tmod j 16
  have hlt : (j.tmod 16).natAbs < 16 := habs ▸ Nat.mod_lt _ (by decide)
  have hnonneg : 0 ≤ j.tmod 16 := Int.tmod_nonneg 16 hj
  rw [← habs]
  have hr := hall ⟨(j.tmod 16).natAbs, hlt⟩
  rwa [show (((j.tmod 16).natAbs : Int)) = j.tmod 16 by omega] at hr

/-- A text stored backwards, ended and turned around: what is common to the two
conversions. -/
theorem pokes_reverse_spec (b : FixedBuffer SIZE) {buf : Nat} {text : Bytes}
    (hroom : buf + text.length < SIZE) :
    ∃ b₁ b₂ b₃, b.pokes buf text.reverse = .ok b₁ ∧ b₁.poke (buf + text.length) 0 = .ok b₂ ∧
      b₂.reverse buf (buf + text.length) = .ok b₃ ∧ b.Stored buf (text ++ [0]) b₃ := by
  have hlen : buf + text.reverse.length = buf + text.length := by rw [List.length_reverse]
  obtain ⟨b₁, hb₁, hstored₁⟩ := b.pokes_spec (show buf + text.reverse.length ≤ SIZE by omega)
  obtain ⟨b₂, hb₂, hstored₂⟩ := b₁.poke_spec hroom 0
  rw [← hlen] at hstored₂
  obtain ⟨b₃, hb₃, hstored₃⟩ :=
    FixedBuffer.reverse_spec (hstored₁.append hstored₂ (by omega)) (Nat.le_of_lt hroom)
  exact ⟨b₁, b₂, b₃, hb₁, hb₂, hb₃, hstored₃⟩

/-- **The decimal conversion.** With room for the text and the NUL, that is what is
stored. -/
theorem convert_spec (b : FixedBuffer SIZE) {buf : Nat} {value : Int}
    (hroom : buf + (integerText value).length < SIZE) :
    ∃ b', convert b buf value = .ok (b', (integerText value).length) ∧
      b.Stored buf (integerText value ++ [0]) b' := by
  obtain ⟨b₁, b₂, b₃, hb₁, hb₂, hb₃, hstored⟩ := pokes_reverse_spec b hroom
  have hloop : digitLoop (show (1 : Int) < 10 by decide) zero b buf value =
      (b.pokes buf (decimal value.natAbs).reverse).map
        (·, buf + (decimal value.natAbs).length) := by
    rw [digitLoop_eq _ zero (fun c => c.toNat.toUInt8) fun j _ => zero_tmod j, decimal,
      List.length_map]
    rfl
  refine ⟨b₃, ?_, hstored⟩
  by_cases hneg : value < 0
  · have htext : integerText value = 45 :: decimal value.natAbs := if_pos hneg
    rw [htext, List.length_cons, ← Nat.add_assoc] at hb₂ hb₃
    rw [htext, List.reverse_cons, FixedBuffer.pokes_append, List.length_reverse] at hb₁
    obtain ⟨b₀, hb₀, hsign⟩ := bind_eq_ok.mp hb₁
    obtain ⟨b₁', hb₁', hend⟩ := bind_eq_ok.mp hsign
    cases hend
    rw [hb₀] at hloop
    simp only [convert, hloop, Except.map, ok_bind, if_pos hneg, hb₁', hb₂, hb₃, htext,
      List.length_cons, pure_eq_ok]
    rw [Nat.add_assoc, Nat.add_sub_cancel_left]
  · have htext : integerText value = decimal value.natAbs := if_neg hneg
    rw [htext] at hb₁ hb₂ hb₃
    rw [hb₁] at hloop
    simp only [convert, hloop, Except.map, ok_bind, if_neg hneg, hb₂, hb₃, htext, pure_eq_ok,
      Nat.add_sub_cancel_left]

/-- **The hexadecimal conversion.** -/
theorem convertHex_spec (b : FixedBuffer SIZE) {buf : Nat} {value : UInt64}
    (hroom : buf + (hexText value.toNat).length < SIZE) :
    ∃ b', convertHex b buf value = .ok (b', (hexText value.toNat).length) ∧
      b.Stored buf (hexText value.toNat ++ [0]) b' := by
  obtain ⟨b₁, b₂, b₃, hb₁, hb₂, hb₃, hstored⟩ := pokes_reverse_spec b hroom
  have hloop : digitLoop (show (1 : Int) < 16 by decide) (charAt digitsHex) b buf value.toNat =
      (b.pokes buf (hexText value.toNat).reverse).map
        (·, buf + (hexText value.toNat).length) := by
    rw [digitLoop_eq _ _ (fun c => c.toUpper.toNat.toUInt8)
      fun j hj => digitsHex_tmod (hj (Int.natCast_nonneg _)), hexText, List.length_map]
    rfl
  rw [hb₁] at hloop
  refine ⟨b₃, ?_, hstored⟩
  simp only [convertHex, hloop, Except.map, ok_bind, hb₂, hb₃, pure_eq_ok,
    Nat.add_sub_cancel_left]

end Conversions

/-! ## The code's stream and the abstract one -/

namespace LogStream

/-- The bytes the stream would hand over. -/
def contents (s : LogStream) : Bytes := s.buffer.contents

theorem contents_init (data : { data : Bytes // data.length = kSmallBuffer }) :
    (init data).contents = [] := FixedBuffer.contents_eq_nil rfl

theorem avail_eq (s : LogStream) : s.buffer.avail = kSmallBuffer - s.contents.length :=
  s.buffer.avail_eq

/-- A text is taken as a whole or not at all. -/
theorem appendText_spec (s : LogStream) {v : Insertion} (hnum : v.isNumeric = false) :
    (s.appendText v.text).contents = accept s.contents v := by
  have htaken := Insertion.admitted_text hnum (kSmallBuffer - s.contents.length)
  unfold accept
  rw [← s.avail_eq] at htaken ⊢
  by_cases hroom : v.text.length < s.buffer.avail
  · rw [if_pos (htaken.mpr hroom)]
    exact FixedBuffer.contents_append hroom
  · rw [if_neg (htaken.not.mpr hroom), appendText, FixedBuffer.append, dif_neg hroom]

/-- So is a number, if what is done where there is room for it stores its text. -/
theorem numeric_spec (s : LogStream) {v : Insertion} (hnum : v.isNumeric = true)
    {body : Checked LogStream}
    (hbody : s.buffer.cur + kMaxNumericSize ≤ kSmallBuffer →
      ∃ s', body = .ok s' ∧ s'.contents = s.contents ++ v.text) :
    ∃ s', (if s.buffer.avail ≥ kMaxNumericSize then body else return s) = .ok s' ∧
      s'.contents = accept s.contents v := by
  have htaken := Insertion.admitted_numeric hnum (kSmallBuffer - s.contents.length)
  unfold accept
  rw [← s.avail_eq] at htaken ⊢
  by_cases hroom : s.buffer.avail ≥ kMaxNumericSize
  · rw [if_pos hroom, if_pos (htaken.mpr hroom)]
    apply hbody
    have : 0 < kMaxNumericSize := by decide
    unfold FixedBuffer.avail at hroom
    omega
  · rw [if_neg hroom, if_neg (htaken.not.mpr hroom)]
    exact ⟨s, rfl, rfl⟩

theorem formatInteger_spec (s : LogStream) (v : Integer) :
    ∃ s', s.formatInteger v.value = .ok s' ∧ s'.contents = accept s.contents (.integer v) := by
  have hlen : (integerText v.value).length < kMaxNumericSize :=
    Insertion.length_text_lt (v := .integer v) rfl
  apply s.numeric_spec (v := .integer v) rfl
  intro hroom
  obtain ⟨b₁, hb₁, hstored⟩ := convert_spec s.buffer
    (show s.buffer.cur + (integerText v.value).length < kSmallBuffer by omega)
  obtain ⟨b₂, hb₂, hcontents⟩ := FixedBuffer.add_spec hstored (by omega)
  refine ⟨⟨b₂⟩, ?_, hcontents⟩
  simp only [FixedBuffer.current, hb₁, ok_bind, hb₂, pure_eq_ok]

/-- The two characters in front, and the conversion behind them. -/
theorem insertPointer_spec (s : LogStream) (p : UInt64) :
    ∃ s', s.insertPointer p = .ok s' ∧ s'.contents = accept s.contents (.pointer p) := by
  have hlen : (ascii "0x" ++ hexText p.toNat).length < kMaxNumericSize :=
    Insertion.length_text_lt (v := .pointer p) rfl
  have hlead : (ascii "0x" ++ hexText p.toNat).length = (hexText p.toNat).length + 2 := by
    rw [List.length_append]
    exact Nat.add_comm ..
  apply s.numeric_spec (v := .pointer p) rfl
  intro hroom
  obtain ⟨b₁, hb₁, hstored₁⟩ := s.buffer.poke_spec (show s.buffer.cur < kSmallBuffer by omega) 48
  obtain ⟨b₂, hb₂, hstored₂⟩ := b₁.poke_spec (show s.buffer.cur + 1 < kSmallBuffer by omega) 120
  obtain ⟨b₃, hb₃, hstored₃⟩ := convertHex_spec b₂
    (show s.buffer.cur + 2 + (hexText p.toNat).length < kSmallBuffer by omega)
  have hstored := (hstored₁.append hstored₂ (show s.buffer.cur + 1 ≤ _ by omega)).append hstored₃
    (show s.buffer.cur + 2 ≤ _ by omega)
  rw [← List.append_assoc] at hstored
  have hfits : s.buffer.cur + (ascii "0x" ++ hexText p.toNat).length ≤ kSmallBuffer := by omega
  obtain ⟨b₄, hb₄, hcontents⟩ := FixedBuffer.add_spec hstored hfits
  refine ⟨⟨b₄⟩, ?_, hcontents⟩
  change b₃.add (ascii "0x" ++ hexText p.toNat).length = _ at hb₄
  rw [hlead] at hb₄
  simp only [FixedBuffer.current, hb₁, hb₂, hb₃, ok_bind, hb₄, pure_eq_ok]

theorem insertDouble_spec (s : LogStream) (v : DoubleText) :
    ∃ s', s.insertDouble v = .ok s' ∧ s'.contents = accept s.contents (.double v) := by
  have hlen := v.fits
  apply s.numeric_spec (v := .double v) rfl
  intro hroom
  have hfits : s.buffer.cur + (v.bytes ++ [0]).length ≤ kSmallBuffer := by
    rw [List.length_append, List.length_singleton]
    omega
  obtain ⟨b₁, hb₁, hstored⟩ := s.buffer.pokes_spec hfits
  obtain ⟨b₂, hb₂, hcontents⟩ := FixedBuffer.add_spec hstored (by omega)
  refine ⟨⟨b₂⟩, ?_, hcontents⟩
  simp only [FixedBuffer.current, hb₁, ok_bind, hb₂, pure_eq_ok]

/-- **The stream is what was accepted.** No insertion faults, and each leaves the
contents the abstract stream has. -/
theorem insert_spec (s : LogStream) (v : Insertion) :
    ∃ s', s.insert v = .ok s' ∧ s'.contents = accept s.contents v := by
  cases v with
  | bool v => exact ⟨_, rfl, s.appendText_spec (v := .bool v) rfl⟩
  | char v => exact ⟨_, rfl, s.appendText_spec (v := .char v) rfl⟩
  | cstring str =>
    cases str with
    | some str => exact ⟨_, rfl, s.appendText_spec (v := .cstring (some str)) rfl⟩
    | none => exact ⟨_, rfl, s.appendText_spec (v := .cstring none) rfl⟩
  | string v => exact ⟨_, rfl, s.appendText_spec (v := .string v) rfl⟩
  | append data => exact ⟨_, rfl, s.appendText_spec (v := .append data) rfl⟩
  | integer v => exact s.formatInteger_spec v
  | pointer p => exact s.insertPointer_spec p
  | double v => exact s.insertDouble_spec v

theorem insertAll_spec (s : LogStream) (vs : List Insertion) :
    ∃ s', s.insertAll vs = .ok s' ∧ s'.contents = vs.foldl accept s.contents := by
  induction vs generalizing s with
  | nil => exact ⟨s, rfl, rfl⟩
  | cons v vs ih =>
    obtain ⟨s₁, hs₁, hcontents₁⟩ := s.insert_spec v
    obtain ⟨s₂, hs₂, hcontents₂⟩ := ih s₁
    refine ⟨s₂, ?_, ?_⟩
    · simp only [insertAll, hs₁, ok_bind, hs₂]
    · rw [hcontents₂, hcontents₁, List.foldl_cons]

end LogStream

end ClyServer
