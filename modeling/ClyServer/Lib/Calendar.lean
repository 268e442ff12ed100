import Mathlib.Algebra.Ring.Nat
import Mathlib.Tactic.Common

/-!
# Dates, times and their texts

A place in a row of periods of different lengths is a period and a place in it; finding it is
subtracting lengths until what is left fits (`period`), and the order of places is the
lexicographic one (`period_lt_iff`). Years are such periods, and so are the months of a year,
so the same statement orders dates (`dateTime_before_iff`). Texts of fixed-width numbers are
ordered as the numbers are (`padded_lt_iff`), and with that the texts of dates and times are
ordered as the times (`text_lt_iff`).

Times are seconds since the beginning of 1970, in the Gregorian calendar and without leap seconds.
-/

namespace ClyServer.Lib

/-! ## Periods one after the other -/

/-- From the start of the period `k`, `n` places on: the period, and the place in it. The first
number bounds the periods gone through. -/
def locate (len : Nat → Nat) : Nat → Nat → Nat → Nat × Nat
  | 0, k, n => (k, n)
  | fuel + 1, k, n => if n < len k then (k, n) else locate len fuel (k + 1) (n - len k)

/-- The period of a place, and the place in it. -/
def period (len : Nat → Nat) (n : Nat) : Nat × Nat := locate len n 0 n

/-- Where a period starts. -/
def startOf (len : Nat → Nat) : Nat → Nat
  | 0 => 0
  | k + 1 => startOf len k + len k

section Periods

variable {len : Nat → Nat}

theorem startOf_mono {k k' : Nat} (h : k ≤ k') : startOf len k ≤ startOf len k' := by
  induction h with
  | refl => exact Nat.le_refl _
  | step _ ih => exact Nat.le_trans ih (Nat.le_add_right ..)

theorem locate_spec (hlen : ∀ k, 0 < len k) {fuel k n : Nat} (hn : n ≤ fuel) :
    (locate len fuel k n).2 < len (locate len fuel k n).1 ∧
      startOf len (locate len fuel k n).1 + (locate len fuel k n).2 = startOf len k + n := by
  induction fuel generalizing k n with
  | zero =>
    rw [Nat.le_zero.mp hn]
    exact ⟨hlen k, rfl⟩
  | succ fuel ih =>
    unfold locate
    by_cases hfits : n < len k
    · rw [if_pos hfits]
      exact ⟨hfits, rfl⟩
    · rw [if_neg hfits]
      have hpos := hlen k
      obtain ⟨hlt, hstart⟩ := ih (k := k + 1) (n := n - len k) (by omega)
      refine ⟨hlt, hstart.trans ?_⟩
      rw [startOf]
      omega

theorem period_spec (hlen : ∀ k, 0 < len k) (n : Nat) :
    (period len n).2 < len (period len n).1 ∧
      startOf len (period len n).1 + (period len n).2 = n := by
  obtain ⟨hlt, hstart⟩ := locate_spec hlen (k := 0) (Nat.le_refl n)
  exact ⟨hlt, hstart.trans (Nat.zero_add n)⟩

/-- A place before the start of a period is in an earlier one. -/
theorem period_fst_lt (hlen : ∀ k, 0 < len k) {n k : Nat} (h : n < startOf len k) :
    (period len n).1 < k := by
  obtain ⟨-, hstart⟩ := period_spec hlen n
  refine Decidable.byContradiction fun hle => ?_
  have : startOf len k ≤ startOf len (period len n).1 := startOf_mono (Nat.not_lt.mp hle)
  omega

/-- **Places are ordered by their periods, and in a period by the places in it.** -/
theorem period_lt_iff (hlen : ∀ k, 0 < len k) {n n' : Nat} :
    n < n' ↔ (period len n).1 < (period len n').1 ∨
      (period len n).1 = (period len n').1 ∧ (period len n).2 < (period len n').2 := by
  obtain ⟨hlt, hn⟩ := period_spec hlen n
  obtain ⟨hlt', hn'⟩ := period_spec hlen n'
  rcases Nat.lt_trichotomy (period len n).1 (period len n').1 with h | h | h
  · have hnext : startOf len ((period len n).1 + 1) ≤ startOf len (period len n').1 :=
      startOf_mono h
    rw [startOf] at hnext
    exact iff_of_true (by omega) (.inl h)
  · rw [h] at hn hlt
    constructor
    · exact fun _ => .inr ⟨h, by omega⟩
    · rintro (hlt | ⟨-, hlt⟩)
      · omega
      · omega
  · have hnext : startOf len ((period len n').1 + 1) ≤ startOf len (period len n).1 :=
      startOf_mono h
    rw [startOf] at hnext
    refine iff_of_false (by omega) ?_
    rintro (hlt | ⟨heq, -⟩)
    · omega
    · omega

end Periods

/-! ## The calendar -/

def isLeap (year : Nat) : Bool := year % 4 = 0 && (year % 100 ≠ 0 || year % 400 = 0)

def daysInYear (year : Nat) : Nat := if isLeap year then 366 else 365

/-- The days of the months, counted from zero. -/
def daysInMonth (leap : Bool) : Nat → Nat
  | 1 => if leap then 29 else 28
  | 3 | 5 | 8 | 10 => 30
  | _ => 31

theorem daysInYear_pos (year : Nat) : 0 < daysInYear year := by
  unfold daysInYear
  split <;> decide

theorem daysInMonth_pos (leap : Bool) (month : Nat) : 0 < daysInMonth leap month := by
  unfold daysInMonth
  split
  · split <;> decide
  all_goals decide

theorem daysInMonth_le (leap : Bool) (month : Nat) : daysInMonth leap month ≤ 31 := by
  unfold daysInMonth
  split
  · split <;> decide
  all_goals decide

/-- The twelve months of a year are its days. -/
theorem startOf_daysInMonth (year : Nat) :
    startOf (daysInMonth (isLeap year)) 12 = daysInYear year := by
  unfold daysInYear
  cases isLeap year <;> rfl

/-- The year, the month and the day of a day counted from the first of 1970, the last two from
zero. -/
def civil (days : Nat) : Nat × Nat × Nat :=
  let year := period (fun k => daysInYear (1970 + k)) days
  (1970 + year.1, period (daysInMonth (isLeap (1970 + year.1))) year.2)

theorem civil_range (days : Nat) : (civil days).2.1 < 12 ∧ (civil days).2.2 < 31 := by
  obtain ⟨hyday, -⟩ := period_spec (fun k => daysInYear_pos (1970 + k)) days
  have hlen := daysInMonth_pos
    (isLeap (1970 + (period (fun k => daysInYear (1970 + k)) days).1))
  refine ⟨period_fst_lt hlen ?_, Nat.lt_of_lt_of_le (period_spec hlen _).1 (daysInMonth_le _ _)⟩
  rw [startOf_daysInMonth]
  exact hyday

theorem civil_lt_iff (n n' : Nat) :
    n < n' ↔ (civil n).1 < (civil n').1 ∨ (civil n).1 = (civil n').1 ∧
      ((civil n).2.1 < (civil n').2.1 ∨
        (civil n).2.1 = (civil n').2.1 ∧ (civil n).2.2 < (civil n').2.2) := by
  rw [period_lt_iff (fun k => daysInYear_pos (1970 + k))]
  refine or_congr (Nat.add_lt_add_iff_left (k := 1970)).symm ?_
  rw [show (civil n).1 = (civil n').1 ↔ _ from Nat.add_left_cancel_iff (n := 1970)]
  refine and_congr_right fun hyear => ?_
  rw [period_lt_iff (daysInMonth_pos (isLeap (1970 +
    (period (fun k => daysInYear (1970 + k)) n).1)))]
  simp only [civil, hyear]

/-- A date and a time of day; months and days are counted from one. -/
structure DateTime where
  year : Nat
  month : Nat
  day : Nat
  hour : Nat
  minute : Nat
  second : Nat
  deriving DecidableEq, Repr

/-- The date and time a number of seconds after the beginning of 1970. -/
def dateTime (seconds : Nat) : DateTime where
  year := (civil (seconds / 86400)).1
  month := (civil (seconds / 86400)).2.1 + 1
  day := (civil (seconds / 86400)).2.2 + 1
  hour := seconds % 86400 / 3600
  minute := seconds % 3600 / 60
  second := seconds % 60

namespace DateTime

/-- Earlier, field by field. -/
def Before (d d' : DateTime) : Prop :=
  d.year < d'.year ∨ d.year = d'.year ∧ (d.month < d'.month ∨ d.month = d'.month ∧
    (d.day < d'.day ∨ d.day = d'.day ∧ (d.hour < d'.hour ∨ d.hour = d'.hour ∧
      (d.minute < d'.minute ∨ d.minute = d'.minute ∧ d.second < d'.second))))

/-- The fields behind the year have two digits. -/
structure InRange (d : DateTime) : Prop where
  month : d.month < 100
  day : d.day < 100
  hour : d.hour < 100
  minute : d.minute < 100
  second : d.second < 100

end DateTime

theorem dateTime_inRange (seconds : Nat) : (dateTime seconds).InRange := by
  obtain ⟨hmonth, hday⟩ := civil_range (seconds / 86400)
  constructor <;> dsimp only [dateTime] <;> omega

/-- **Times are ordered by their dates and times of day.** -/
theorem dateTime_before_iff (s s' : Nat) : (dateTime s).Before (dateTime s') ↔ s < s' := by
  have hdays := civil_lt_iff (s / 86400) (s' / 86400)
  have hback := civil_lt_iff (s' / 86400) (s / 86400)
  simp only [DateTime.Before, dateTime]
  omega

example : dateTime 951782400 = ⟨2000, 2, 29, 0, 0, 0⟩ := by decide

/-- The years before 10000 end with that second. -/
theorem dateTime_year {seconds : Nat} (h : seconds < 253402300800) :
    1970 ≤ (dateTime seconds).year ∧ (dateTime seconds).year < 10000 := by
  have hstart : startOf (fun k => daysInYear (1970 + k)) 8030 = 2932897 := by decide +kernel
  have hyear := period_fst_lt (fun k => daysInYear_pos (1970 + k)) (n := seconds / 86400)
    (k := 8030) (by omega)
  simp only [dateTime, civil]
  omega

/-! ## Texts -/

/-- Texts of which the first parts are of one length are ordered by these, and if they are the
same by the rest. -/
theorem append_lt_append_iff {l l' m m' : List UInt8} (h : l.length = l'.length) :
    l ++ m < l' ++ m' ↔ l < l' ∨ l = l' ∧ m < m' := by
  induction l generalizing l' with
  | nil =>
    cases l' with
    | nil => simp
    | cons b l' => cases h
  | cons a l ih =>
    cases l' with
    | nil => cases h
    | cons b l' =>
      simp only [List.cons_append, List.cons_lt_cons_iff, List.cons.injEq, ih (Nat.succ.inj h)]
      tauto

/-- A first part in common does not matter, -/
theorem append_left_lt_iff (l : List UInt8) {m m' : List UInt8} : l ++ m < l ++ m' ↔ m < m' := by
  rw [append_lt_append_iff rfl]
  simp [List.lt_irrefl]

/-- nor does a rest in common behind parts of one length. -/
theorem append_right_lt_iff {l l' : List UInt8} (m : List UInt8) (h : l.length = l'.length) :
    l ++ m < l' ++ m ↔ l < l' := by
  rw [append_lt_append_iff h]
  simp [List.lt_irrefl]

/-- The last `width` decimal digits of a number. -/
def padded : Nat → Nat → List UInt8
  | 0, _ => []
  | width + 1, n => padded width (n / 10) ++ [(48 + n % 10).toUInt8]

@[simp] theorem length_padded (width n : Nat) : (padded width n).length = width := by
  induction width generalizing n with
  | zero => rfl
  | succ width ih => rw [padded, List.length_append, ih, List.length_singleton]

/-- Digits are ordered as bytes are. -/
theorem digit_lt_iff {d d' : Nat} (hd : d < 10) (hd' : d' < 10) :
    (48 + d).toUInt8 < (48 + d').toUInt8 ↔ d < d' := by
  rw [UInt8.lt_iff_toNat_lt, Nat.toUInt8_eq, Nat.toUInt8_eq, UInt8.toNat_ofNat',
    UInt8.toNat_ofNat']
  omega

theorem digit_inj {d d' : Nat} (hd : d < 10) (hd' : d' < 10)
    (h : (48 + d).toUInt8 = (48 + d').toUInt8) : d = d' := by
  have hnat := congrArg UInt8.toNat h
  rw [Nat.toUInt8_eq, Nat.toUInt8_eq, UInt8.toNat_ofNat', UInt8.toNat_ofNat'] at hnat
  omega

theorem padded_inj {width n n' : Nat} (hn : n < 10 ^ width) (hn' : n' < 10 ^ width)
    (h : padded width n = padded width n') : n = n' := by
  induction width generalizing n n' with
  | zero => omega
  | succ width ih =>
    rw [Nat.pow_succ] at hn hn'
    obtain ⟨hfront, hlast⟩ := List.append_inj' h rfl
    have hquot := ih (by omega) (by omega) hfront
    have hdigit := digit_inj (Nat.mod_lt n (by omega)) (Nat.mod_lt n' (by omega))
      (List.singleton_inj.mp hlast)
    omega

/-- **Numbers of one width are ordered as their texts are.** -/
theorem padded_lt_iff {width n n' : Nat} (hn : n < 10 ^ width) (hn' : n' < 10 ^ width) :
    padded width n < padded width n' ↔ n < n' := by
  induction width generalizing n n' with
  | zero =>
    have hzero : n = n' := by omega
    subst hzero
    simp [padded]
  | succ width ih =>
    rw [Nat.pow_succ] at hn hn'
    have hquot : padded width (n / 10) = padded width (n' / 10) ↔ n / 10 = n' / 10 :=
      ⟨padded_inj (by omega) (by omega), fun h => by rw [h]⟩
    rw [padded, padded, append_lt_append_iff (by simp), ih (by omega) (by omega), hquot,
      List.cons_lt_cons_iff, digit_lt_iff (Nat.mod_lt n (by omega)) (Nat.mod_lt n' (by omega))]
    simp only [List.not_lt_nil, and_false, or_false]
    omega

/-- The decimal text of a number. -/
def numeral (n : Nat) : List UInt8 := (Nat.toDigits 10 n).map fun c => c.toNat.toUInt8

theorem numeral_eq_padded {w n : Nat} (hlow : 10 ^ w ≤ n) (hhigh : n < 10 ^ (w + 1)) :
    numeral n = padded (w + 1) n := by
  have hlast : ∀ d < 10, d.digitChar.toNat.toUInt8 = (48 + d).toUInt8 := by decide
  induction w generalizing n with
  | zero =>
    have hn : n < 10 := hhigh
    rw [numeral, Nat.toDigits_eq_if (by omega), if_pos hn, padded, Nat.mod_eq_of_lt hn,
      ← hlast n hn]
    rfl
  | succ w ih =>
    have hpow : 0 < 10 ^ w := Nat.pow_pos (by omega)
    rw [Nat.pow_succ] at hlow hhigh
    have hfront := ih (n := n / 10) (by omega) (by omega)
    rw [numeral, Nat.toDigits_eq_if (by omega), if_neg (by omega), List.map_append, padded,
      ← hfront, ← hlast _ (Nat.mod_lt n (by omega))]
    rfl

namespace DateTime

/-- The texts of the fields one after the other, with a text between the date and the time and
one between the parts of the time. -/
def text (d : DateTime) (sep sep' : List UInt8) : List UInt8 :=
  numeral d.year ++ (padded 2 d.month ++ (padded 2 d.day ++ (sep ++ (padded 2 d.hour ++
    (sep' ++ (padded 2 d.minute ++ (sep' ++ padded 2 d.second)))))))

section

variable {d d' : DateTime} (sep sep' : List UInt8)

/-- The text shows all the fields. -/
theorem text_inj (hd : d.InRange) (hd' : d'.InRange) (h : d.text sep sep' = d'.text sep sep') :
    numeral d.year = numeral d'.year ∧ d.month = d'.month ∧ d.day = d'.day ∧ d.hour = d'.hour ∧
      d.minute = d'.minute ∧ d.second = d'.second := by
  obtain ⟨hyear, h⟩ := List.append_inj' h (by simp)
  obtain ⟨hmonth, h⟩ := List.append_inj h (by simp)
  obtain ⟨hday, h⟩ := List.append_inj h (by simp)
  obtain ⟨hhour, h⟩ := List.append_inj (List.append_cancel_left h) (by simp)
  obtain ⟨hminute, h⟩ := List.append_inj (List.append_cancel_left h) (by simp)
  have hsecond := List.append_cancel_left h
  exact ⟨hyear, padded_inj hd.month hd'.month hmonth, padded_inj hd.day hd'.day hday,
    padded_inj hd.hour hd'.hour hhour, padded_inj hd.minute hd'.minute hminute,
    padded_inj hd.second hd'.second hsecond⟩

/-- With four digits for the year, texts are of one length. -/
theorem length_text (hyear : 1000 ≤ d.year ∧ d.year < 10000) :
    (d.text sep sep').length = sep.length + 2 * sep'.length + 14 := by
  rw [text, numeral_eq_padded (w := 3) hyear.1 hyear.2]
  simp only [List.length_append, length_padded]
  omega

/-- A number in front of a text: the number first, then the text. -/
theorem padded_append_lt_iff {width n n' : Nat} (hn : n < 10 ^ width) (hn' : n' < 10 ^ width)
    {m m' : List UInt8} :
    padded width n ++ m < padded width n' ++ m' ↔ n < n' ∨ n = n' ∧ m < m' := by
  have hsame : padded width n = padded width n' ↔ n = n' :=
    ⟨padded_inj hn hn', fun h => by rw [h]⟩
  rw [append_lt_append_iff (by simp), padded_lt_iff hn hn', hsame]

/-- **Texts are ordered as the times are**, as long as years have four digits. -/
theorem text_lt_iff (hd : d.InRange) (hd' : d'.InRange) (hyear : 1000 ≤ d.year ∧ d.year < 10000)
    (hyear' : 1000 ≤ d'.year ∧ d'.year < 10000) :
    d.text sep sep' < d'.text sep sep' ↔ d.Before d' := by
  rw [text, text, numeral_eq_padded (w := 3) hyear.1 hyear.2,
    numeral_eq_padded (w := 3) hyear'.1 hyear'.2, padded_append_lt_iff hyear.2 hyear'.2,
    padded_append_lt_iff hd.month hd'.month, padded_append_lt_iff hd.day hd'.day,
    append_left_lt_iff, padded_append_lt_iff hd.hour hd'.hour, append_left_lt_iff,
    padded_append_lt_iff hd.minute hd'.minute, append_left_lt_iff,
    padded_lt_iff hd.second hd'.second]
  rfl

end

end DateTime

end ClyServer.Lib
