import ClyServer.Base.LogInsertion
import ClyServer.Base.LogNames

/-!
# Timestamps (`base/Timestamp.h`, `base/Timestamp.cpp`)

A timestamp counts microseconds since the epoch, and has two texts. The one of `toString` has all of
it: seconds, a point, microseconds, each with its own sign. The one of `toFormattedString` has the
date and the time of day to the second, as clocks eight hours ahead of UTC show them, and is ordered
as time is. On the way to `gmtime` it goes through `std::chrono::system_clock`, which counts
nanoseconds, so that it is good for the times of which these fit in 64 bits.
-/

namespace ClyServer.Timestamp

open ClyServer.Lib

def kMicroSecondsPerSecond : Int := 1000 * 1000

/-- `secondsSinceEpoch()`. -/
def secondsSinceEpoch (microSecondsSinceEpoch : Int) : Int :=
  microSecondsSinceEpoch.tdiv kMicroSecondsPerSecond

/-- The sign of `%d`. -/
def sign (v : Int) : Bytes := if v < 0 then [45] else []

/-- `%0<width>d`: zeros between the sign and the digits. -/
def zeroPadded (width : Nat) (v : Int) : Bytes :=
  sign v ++ (List.replicate (width - (sign v).length - (decimal v.natAbs).length) 48 ++
    decimal v.natAbs)

/-- `toString()`, with `"%ld.%06ld"`. -/
def toString (microSecondsSinceEpoch : Int) : Bytes :=
  let seconds := microSecondsSinceEpoch.tdiv kMicroSecondsPerSecond
  let microseconds := microSecondsSinceEpoch.tmod kMicroSecondsPerSecond
  integerText seconds ++ (46 :: zeroPadded 6 microseconds)

/-- `toFormattedString()`, with `"%4d%02d%02d %02d:%02d:%02d"`, of a time not before the epoch. -/
def toFormattedString (microSecondsSinceEpoch : Int) : Bytes :=
  let milli := microSecondsSinceEpoch.tdiv 1000 + 8 * 60 * 60 * 1000
  (dateTime (milli.tdiv 1000).toNat).text [32] [58]

example : toFormattedString 1700000000123456 = ascii "20231115 06:13:20" := by decide +kernel

/-! ## All of it -/

/-- A number read, with its sign. -/
def integerValue : Bytes → Int
  | 45 :: digits => -(decimalValue digits : Int)
  | digits => decimalValue digits

/-- What a text of `toString` says. -/
def ofString (text : Bytes) : Int :=
  integerValue (text.takeWhile (· ≠ 46)) * kMicroSecondsPerSecond +
    integerValue ((text.dropWhile (· ≠ 46)).drop 1)

theorem digit_of_mem_decimal {n : Nat} {b : UInt8} (hb : b ∈ decimal n) : 48 ≤ b ∧ b ≤ 57 := by
  obtain ⟨c, hc, rfl⟩ := List.mem_map.mp hb
  have hdigit := Nat.isDigit_of_mem_toDigits (by decide) (by decide) hc
  have hrange : 48 ≤ c.toNat ∧ c.toNat ≤ 57 := by
    simpa [Char.isDigit, UInt32.le_iff_toNat_le] using hdigit
  rw [UInt8.le_iff_toNat_le, UInt8.le_iff_toNat_le, Nat.toUInt8_eq, UInt8.toNat_ofNat']
  have hsmall : c.toNat % 2 ^ 8 = c.toNat := Nat.mod_eq_of_lt (by omega)
  rw [hsmall]
  exact hrange

/-- Zeros in front of digits say nothing. -/
theorem decimalValue_zeros (k n : Nat) :
    decimalValue (List.replicate k 48 ++ decimal n) = n := by
  induction k with
  | zero => exact decimalValue_decimal n
  | succ k ih =>
    rw [List.replicate_succ, List.cons_append, decimalValue, List.foldl_cons]
    exact ih

theorem integerValue_signed (v : Int) (k : Nat) :
    integerValue (sign v ++ (List.replicate k 48 ++ decimal v.natAbs)) = v := by
  have hvalue := decimalValue_zeros k v.natAbs
  unfold sign
  by_cases hneg : v < 0
  · rw [if_pos hneg, List.singleton_append, integerValue, hvalue]
    omega
  · rw [if_neg hneg, List.nil_append]
    -- the first byte is a digit, so it is not taken for a sign
    have hne : ∀ b ∈ List.replicate k 48 ++ decimal v.natAbs, b ≠ 45 := by
      intro b hb
      rcases List.mem_append.mp hb with hb | hb
      · rw [List.eq_of_mem_replicate hb]
        decide
      · rintro rfl
        exact absurd (digit_of_mem_decimal hb).1 (by decide)
    unfold integerValue
    split
    · rename_i digits heq
      exact absurd rfl (hne 45 (heq ▸ List.mem_cons_self))
    · rw [hvalue]
      omega

theorem integerText_eq (v : Int) :
    integerText v = sign v ++ (List.replicate 0 48 ++ decimal v.natAbs) := by
  unfold integerText sign
  split <;> rfl

theorem integerText_ne_point {v : Int} {b : UInt8} (hb : b ∈ integerText v) : b ≠ 46 := by
  rintro rfl
  unfold integerText at hb
  have hdigits : (46 : UInt8) ∉ decimal v.natAbs := fun hmem =>
    absurd (digit_of_mem_decimal hmem).1 (by decide)
  split at hb
  · rcases List.mem_cons.mp hb with heq | hmem
    · cases heq
    · exact hdigits hmem
  · exact hdigits hb

/-- **The text of `toString` says which timestamp it is of.** -/
theorem ofString_toString (t : Int) : ofString (toString t) = t := by
  have hpoint : ∀ b ∈ integerText (t.tdiv kMicroSecondsPerSecond), decide (b ≠ 46) = true :=
    fun b hb => decide_eq_true (integerText_ne_point hb)
  unfold ofString toString
  dsimp only
  rw [List.takeWhile_append_of_pos hpoint, List.dropWhile_append_of_pos hpoint,
    List.takeWhile_cons_of_neg (by decide), List.dropWhile_cons_of_neg (by decide),
    List.append_nil, List.drop_one, List.tail_cons, integerText_eq, integerValue_signed, zeroPadded,
    integerValue_signed, Int.mul_comm]
  exact Int.mul_tdiv_add_tmod t kMicroSecondsPerSecond

/-- It fits its buffer of 32 bytes. -/
theorem length_toString_lt {t : Int} (h : -2 ^ 63 ≤ t ∧ t < 2 ^ 63) :
    (toString t).length < 32 := by
  have hseconds : (t.tdiv kMicroSecondsPerSecond).natAbs < Nat.pow 10 13 := by
    rw [Int.natAbs_tdiv]
    change t.natAbs / 1000000 < 10000000000000
    omega
  have hmicro : (t.tmod kMicroSecondsPerSecond).natAbs < Nat.pow 10 6 := by
    rw [Int.natAbs_tmod]
    exact Nat.mod_lt _ (by decide)
  have hlong := length_decimal_le (by decide) hseconds
  have hshort := length_decimal_le (by decide) hmicro
  have hsign : ∀ v, (sign v).length ≤ 1 := by
    intro v
    unfold sign
    split <;> simp
  have hfront := hsign (t.tdiv kMicroSecondsPerSecond)
  have hback := hsign (t.tmod kMicroSecondsPerSecond)
  simp only [toString, integerText_eq, zeroPadded, List.length_append, List.length_cons,
    List.length_replicate]
  omega

/-! ## The date and the time of day -/

/-- The times whose nanoseconds, eight hours on, fit in 64 bits. -/
def Shown (t : Int) : Prop := 0 ≤ t ∧ (t / 1000 + 8 * 60 * 60 * 1000) * 1000000 < 2 ^ 63

instance (t : Int) : Decidable (Shown t) := inferInstanceAs (Decidable (_ ∧ _))

theorem secondsSinceEpoch_eq {t : Int} (h : 0 ≤ t) : secondsSinceEpoch t = t / 1000000 :=
  Int.tdiv_eq_ediv_of_nonneg h

/-- Eight hours on, in seconds. -/
theorem toFormattedString_eq {t : Int} (h : 0 ≤ t) :
    toFormattedString t = (dateTime ((secondsSinceEpoch t).toNat + 28800)).text [32] [58] := by
  have hmilli : 0 ≤ t.tdiv 1000 + 8 * 60 * 60 * 1000 := by
    rw [Int.tdiv_eq_ediv_of_nonneg h]
    omega
  unfold toFormattedString
  dsimp only
  rw [secondsSinceEpoch_eq h, Int.tdiv_eq_ediv_of_nonneg hmilli, Int.tdiv_eq_ediv_of_nonneg h]
  congr 2
  omega

theorem Shown.year {t : Int} (h : Shown t) :
    1970 ≤ (dateTime ((secondsSinceEpoch t).toNat + 28800)).year ∧
      (dateTime ((secondsSinceEpoch t).toNat + 28800)).year < 10000 := by
  obtain ⟨hpos, hfits⟩ := h
  rw [secondsSinceEpoch_eq hpos]
  exact dateTime_year (by omega)

theorem Shown.lt_iff {t t' : Int} (h : Shown t) (h' : Shown t') :
    toFormattedString t < toFormattedString t' ↔ secondsSinceEpoch t < secondsSinceEpoch t' := by
  have hyear := h.year
  have hyear' := h'.year
  rw [toFormattedString_eq h.1, toFormattedString_eq h'.1,
    DateTime.text_lt_iff _ _ (dateTime_inRange _) (dateTime_inRange _) (by omega) (by omega),
    dateTime_before_iff, secondsSinceEpoch_eq h.1, secondsSinceEpoch_eq h'.1]
  have hpos := h.1
  have hpos' := h'.1
  omega

/-- **The two texts.** The text of `toString` can be read back, whatever the sign, and fits its
buffer. The text of `toFormattedString` takes 17 bytes; two are the same exactly for times of
one second, and otherwise ordered as the times are. -/
theorem texts_exact :
    (∀ t, ofString (toString t) = t) ∧
    (∀ t, -2 ^ 63 ≤ t ∧ t < 2 ^ 63 → (toString t).length < 32) ∧
    ∀ t t', Shown t → Shown t' →
      (toFormattedString t).length = 17 ∧
      (toFormattedString t = toFormattedString t' ↔
        secondsSinceEpoch t = secondsSinceEpoch t') ∧
      (toFormattedString t < toFormattedString t' ↔
        secondsSinceEpoch t < secondsSinceEpoch t') := by
  refine ⟨ofString_toString, fun t h => length_toString_lt h, fun t t' h h' => ?_⟩
  refine ⟨?_, ?_, h.lt_iff h'⟩
  · have hyear := h.year
    rw [toFormattedString_eq h.1, DateTime.length_text _ _ (by omega)]
    rfl
  · constructor
    · intro heq
      -- neither text is before the other, so neither second is
      have hlt := h.lt_iff h'
      have hgt := h'.lt_iff h
      rw [heq] at hlt hgt
      have hirrefl : ¬ toFormattedString t' < toFormattedString t' := List.lt_irrefl _
      have hge : ¬ secondsSinceEpoch t < secondsSinceEpoch t' := fun hs => hirrefl (hlt.mpr hs)
      have hle : ¬ secondsSinceEpoch t' < secondsSinceEpoch t := fun hs => hirrefl (hgt.mpr hs)
      omega
    · intro heq
      rw [toFormattedString_eq h.1, toFormattedString_eq h'.1, heq]

/-- The last second of a day eight hours ahead of UTC, and the first of the next. -/
theorem texts_exact_midnight :
    toFormattedString 1700063999999999 < toFormattedString 1700064000000000 ∧
      toString (-1) = ascii "0.-00001" ∧ ofString (toString (-1)) = -1 := by
  obtain ⟨hread, -, hshown⟩ := texts_exact
  have hboth := hshown 1700063999999999 1700064000000000 (by decide) (by decide)
  exact ⟨hboth.2.2.mpr (by decide), by decide +kernel, hread (-1)⟩

end ClyServer.Timestamp
