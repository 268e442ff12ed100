import ClyServer.Base.LogInsertion
import ClyServer.Lib.Numeral

/-!
# Numbers in the log

`convert` never negates its argument: it takes remainders, which have the sign of
the value, reads a table that is mirrored around its middle and turns the text
around in place. `convert_exact` says that this is exact for every value of every
integer type, the smallest ones included: what is stored is the one canonical
text of the value and a NUL, in at most 21 bytes, and reading the text gives the
value back. The same for `convertHex` and addresses.
-/

namespace ClyServer

open ClyServer.Lib

/-! ## The texts -/

/-- The digits `0` to `9`. -/
def decimalNumerals : Numerals UInt8 where
  base := 10
  one_lt_base := by decide
  digit c := if 48 ≤ c.toNat ∧ c.toNat ≤ 57 then some (c.toNat - 48) else none
  digit_lt := by
    intro c d h
    split at h
    · cases h
      omega
    · cases h
  digit_inj := by
    intro c c' d h h'
    split at h
    · split at h'
      · cases h
        have heq := Option.some.inj h'
        exact UInt8.toNat_inj.mp (by omega)
      · cases h'
    · cases h

/-- The digits `0` to `9` and `A` to `F`. -/
def upperHexNumerals : Numerals UInt8 where
  base := 16
  one_lt_base := by decide
  digit c :=
    if 48 ≤ c.toNat ∧ c.toNat ≤ 57 then some (c.toNat - 48)
    else if 65 ≤ c.toNat ∧ c.toNat ≤ 70 then some (c.toNat - 55)
    else none
  digit_lt := by
    intro c d h
    split at h
    · cases h
      omega
    · split at h
      · cases h
        omega
      · cases h
  digit_inj := by
    intro c c' d h h'
    apply UInt8.toNat_inj.mp
    split at h <;> split at h' <;> grind

/-- The canonical decimal text of an integer: a sign if it is negative, and digits. -/
def CanonicalDecimal (v : Int) (text : Bytes) : Prop :=
  ∃ ds, decimalNumerals.Canonical ds v.natAbs ∧ text = if v < 0 then 45 :: ds else ds

/-- The integer a decimal text names. -/
def parseInteger : Bytes → Option Int
  | [] => none
  | c :: cs =>
    if c = 45 then
      if cs = [] then none else (decimalNumerals.value cs).map fun n : Nat => -(n : Int)
    else (decimalNumerals.value (c :: cs)).map fun n : Nat => (n : Int)

/-- The number a hexadecimal text names. -/
def parseHex (text : Bytes) : Option Nat :=
  if text = [] then none else upperHexNumerals.value text

theorem canonical_decimal (n : Nat) : decimalNumerals.Canonical (decimal n) n := by
  have hcode : ∀ d : Fin 10,
      decimalNumerals.digit ((d : Nat).digitChar.toNat.toUInt8) = some d := by decide
  exact Numerals.canonical_toDigits (fun d hd => hcode ⟨d, hd⟩) n

theorem canonical_hexText (n : Nat) : upperHexNumerals.Canonical (hexText n) n := by
  have hcode : ∀ d : Fin 16,
      upperHexNumerals.digit ((d : Nat).digitChar.toUpper.toNat.toUInt8) = some d := by decide
  exact Numerals.canonical_toDigits (fun d hd => hcode ⟨d, hd⟩) n

theorem canonicalDecimal_integerText (v : Int) : CanonicalDecimal v (integerText v) :=
  ⟨decimal v.natAbs, canonical_decimal _, rfl⟩

theorem CanonicalDecimal.unique {v : Int} {text text' : Bytes} (h : CanonicalDecimal v text)
    (h' : CanonicalDecimal v text') : text = text' := by
  obtain ⟨ds, hds, rfl⟩ := h
  obtain ⟨ds', hds', rfl⟩ := h'
  rw [hds.unique hds']

/-- Reading a canonical text gives the value back. -/
theorem CanonicalDecimal.parse {v : Int} {text : Bytes} (h : CanonicalDecimal v text) :
    parseInteger text = some v := by
  obtain ⟨ds, hds, rfl⟩ := h
  split
  · rename_i hneg
    rw [parseInteger, if_pos rfl, if_neg hds.nonempty, hds.value, Option.map_some]
    congr 1
    omega
  · rename_i hpos
    obtain ⟨c, cs, rfl⟩ := List.exists_cons_of_ne_nil hds.nonempty
    have hc : c ≠ 45 := by
      rintro rfl
      obtain ⟨d, hd, -⟩ := Numerals.digit_head hds.value
      cases hd
    rw [parseInteger, if_neg hc, hds.value, Option.map_some]
    congr 1
    omega

/-! ## In the types of the language

`convert` is a template, and its loop divides in the type of its argument. Nothing is lost by
reading it on integers: no quotient leaves its type, the smallest values included. -/

namespace Integer

/-- `i / 10`, in the type of `i`. -/
def divTen : Integer → Integer
  | short v => short (v / 10)
  | unsignedShort v => unsignedShort (v / 10)
  | int v => int (v / 10)
  | unsignedInt v => unsignedInt (v / 10)
  | long v => long (v / 10)
  | unsignedLong v => unsignedLong (v / 10)
  | longLong v => longLong (v / 10)
  | unsignedLongLong v => unsignedLongLong (v / 10)

/-- `i % 10`, in the type of `i`. -/
def modTen : Integer → Integer
  | short v => short (v % 10)
  | unsignedShort v => unsignedShort (v % 10)
  | int v => int (v % 10)
  | unsignedInt v => unsignedInt (v % 10)
  | long v => long (v % 10)
  | unsignedLong v => unsignedLong (v % 10)
  | longLong v => longLong (v % 10)
  | unsignedLongLong v => unsignedLongLong (v % 10)

theorem value_divTen (v : Integer) : v.divTen.value = v.value.tdiv 10 := by
  cases v with
  | short v => exact Int16.toInt_div_of_ne_right v 10 (by decide)
  | int v => exact Int32.toInt_div_of_ne_right v 10 (by decide)
  | long v => exact Int64.toInt_div_of_ne_right v 10 (by decide)
  | longLong v => exact Int64.toInt_div_of_ne_right v 10 (by decide)
  | unsignedShort v | unsignedInt v | unsignedLong v | unsignedLongLong v =>
    exact congrArg Int.ofNat (by simp)

theorem value_modTen (v : Integer) : v.modTen.value = v.value.tmod 10 := by
  cases v with
  | short v => exact Int16.toInt_mod v 10
  | int v => exact Int32.toInt_mod v 10
  | long v => exact Int64.toInt_mod v 10
  | longLong v => exact Int64.toInt_mod v 10
  | unsignedShort v | unsignedInt v | unsignedLong v | unsignedLongLong v =>
    exact congrArg Int.ofNat (by simp)

/-- The loop of `convert`, in the type of its argument. -/
def digitLoop {SIZE : Nat} (b : FixedBuffer SIZE) (p : Nat) (i : Integer) :
    Checked (FixedBuffer SIZE × Nat) := do
  let c ← zero i.modTen.value
  let b ← b.poke p c
  if _h : i.divTen.value ≠ 0 then digitLoop b (p + 1) i.divTen
  else return (b, p + 1)
termination_by i.value.natAbs
decreasing_by
  rw [value_divTen] at _h ⊢
  exact natAbs_tdiv_lt (by decide) _h

/-- It is the loop on the value. -/
theorem digitLoop_eq_value {SIZE : Nat} (b : FixedBuffer SIZE) (p : Nat) (i : Integer) :
    i.digitLoop b p = ClyServer.digitLoop (show (1 : Int) < 10 by decide) zero b p i.value := by
  induction hn : i.value.natAbs using Nat.strongRecOn generalizing i b p with
  | ind n ih =>
    subst hn
    rw [digitLoop, ClyServer.digitLoop, value_modTen]
    cases zero (i.value.tmod 10) with
    | error e => rfl
    | ok c =>
      rw [ok_bind, ok_bind]
      cases b.poke p c with
      | error e => rfl
      | ok b₁ =>
        rw [ok_bind, ok_bind]
        by_cases hmore : i.divTen.value ≠ 0
        · have hmore' : i.value.tdiv 10 ≠ 0 := i.value_divTen ▸ hmore
          rw [dif_pos hmore, dif_pos hmore']
          have hlt : i.divTen.value.natAbs < i.value.natAbs := by
            rw [value_divTen]
            exact natAbs_tdiv_lt (by decide) hmore'
          rw [ih _ hlt b₁ (p + 1) i.divTen rfl, value_divTen]
        · rw [dif_neg hmore, dif_neg (i.value_divTen ▸ hmore)]

/-- `convert(buf, value)`, in the type of `value`. -/
def convert {SIZE : Nat} (b : FixedBuffer SIZE) (buf : Nat) (value : Integer) :
    Checked (FixedBuffer SIZE × Nat) := do
  let (b, p) ← value.digitLoop b buf
  let (b, p) ← if value.value < 0 then (b.poke p 45).map (·, p + 1) else pure (b, p)
  let b ← b.poke p 0
  let b ← b.reverse buf p
  return (b, p - buf)

theorem convert_eq_value {SIZE : Nat} (b : FixedBuffer SIZE) (buf : Nat) (v : Integer) :
    v.convert b buf = ClyServer.convert b buf v.value := by
  rw [convert, digitLoop_eq_value]
  rfl

end Integer

/-! ## What is stored -/

/-- `text` and a NUL stored at `buf`, in at most 21 bytes, and nothing else changed. -/
structure Formats {SIZE : Nat} (b : FixedBuffer SIZE) (buf : Nat) (text : Bytes)
    (b' : FixedBuffer SIZE) : Prop where
  stored : b'.data = overwrite b.data buf (text ++ [0])
  cur : b'.cur = b.cur
  touched : (text ++ [0]).length ≤ 21

/-- **Formatting is exact.** In any memory with 21 bytes at `buf`, `convert`, which divides in
the type of its argument, stores the canonical text of a value of any integer type, answers its
length, and the text reads back as the value; `convertHex` does so for an address. -/
theorem convert_exact {SIZE : Nat} (b : FixedBuffer SIZE) {buf : Nat} (hroom : buf + 21 ≤ SIZE) :
    (∀ v : Integer, v.convert b buf = convert b buf v.value ∧
      ∃ text b', convert b buf v.value = .ok (b', text.length) ∧
      Formats b buf text b' ∧ CanonicalDecimal v.value text ∧
      (∀ other, CanonicalDecimal v.value other → other = text) ∧
      parseInteger text = some v.value) ∧
    ∀ p : UInt64, ∃ text b', convertHex b buf p = .ok (b', text.length) ∧
      Formats b buf text b' ∧ upperHexNumerals.Canonical text p.toNat ∧
      (∀ other, upperHexNumerals.Canonical other p.toNat → other = text) ∧
      parseHex text = some p.toNat := by
  constructor
  · intro v
    obtain ⟨hlow, hhigh⟩ := v.value_bounds
    have hlen := length_integerText_le hlow hhigh
    obtain ⟨b', hb', hstored⟩ :=
      convert_spec b (show buf + (integerText v.value).length < SIZE by omega)
    have hcanonical := canonicalDecimal_integerText v.value
    refine ⟨v.convert_eq_value b buf, integerText v.value, b', hb',
      ⟨hstored.data, hstored.cur, ?_⟩, hcanonical, ?_, hcanonical.parse⟩
    · rw [List.length_append, List.length_singleton]
      omega
    · intro other hother
      exact hother.unique hcanonical
  · intro p
    have hlen := length_hexText_le p
    obtain ⟨b', hb', hstored⟩ :=
      convertHex_spec b (show buf + (hexText p.toNat).length < SIZE by omega)
    have hcanonical := canonical_hexText p.toNat
    refine ⟨hexText p.toNat, b', hb', ⟨hstored.data, hstored.cur, ?_⟩, hcanonical, ?_, ?_⟩
    · rw [List.length_append, List.length_singleton]
      omega
    · intro other hother
      exact hother.unique hcanonical
    · rw [parseHex, if_neg hcanonical.nonempty, hcanonical.value]

/-- The most negative value of all, in memory of 21 bytes. -/
theorem convert_exact_smallest :
    ∃ text b', (Integer.long Int64.minValue).convert
        (FixedBuffer.new (List.replicate 21 0) rfl : FixedBuffer 21) 0 = .ok (b', text.length) ∧
      parseInteger text = some (-9223372036854775808) := by
  obtain ⟨htyped, text, b', hb', -, -, -, hparse⟩ :=
    (convert_exact (FixedBuffer.new (List.replicate 21 0) rfl : FixedBuffer 21)
      (show 0 + 21 ≤ 21 by decide)).1 (.long Int64.minValue)
  exact ⟨text, b', htyped.trans hb', hparse⟩

end ClyServer
