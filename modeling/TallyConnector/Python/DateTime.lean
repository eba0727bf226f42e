import Mathlib.Data.Nat.Find
import TallyConnector.Text.Sorting

/-! # Instants

Aware `datetime` objects in UTC, as far as the connector uses them: the point
in time and the text of `isoformat`, which leaves out the fraction of a second
when it is zero.
-/

namespace TallyConnector

open Sorting

/-! ## The calendar -/

def isLeapYear (year : Nat) : Bool :=
  year % 4 = 0 && (year % 100 ≠ 0 || year % 400 = 0)

def daysInMonth (year month : Nat) : Nat :=
  if month = 2 then (if isLeapYear year then 29 else 28)
  else if month ∈ [4, 6, 9, 11] then 30 else 31

/-- The days of the years before this one, from year 1 on. -/
def daysBeforeYear (year : Nat) : Nat :=
  (year - 1) * 365 + (year - 1) / 4 - (year - 1) / 100 + (year - 1) / 400

/-- The days of the year's months before this one. -/
def daysBeforeMonth (year : Nat) : Nat → Nat
  | 0 | 1 => 0
  | month + 2 => daysBeforeMonth year (month + 1) + daysInMonth year (month + 1)

/-! ## Instants -/

/-- The fields of a `datetime`. -/
@[ext]
structure CivilTime where
  year : Nat
  month : Nat
  day : Nat
  hour : Nat
  minute : Nat
  second : Nat
  microsecond : Nat
deriving DecidableEq

namespace CivilTime

/-- `t.toordinal()` -/
def toOrdinal (t : CivilTime) : Nat :=
  daysBeforeYear t.year + daysBeforeMonth t.year t.month + t.day

/-- The microseconds since midnight. -/
def timeOfDay (t : CivilTime) : Nat :=
  ((t.hour * 60 + t.minute) * 60 + t.second) * 1000000 + t.microsecond

/-- The microseconds since the start of 1970. -/
def instant (t : CivilTime) : Int :=
  ((t.toOrdinal : Int) - 719163) * 86400000000 + t.timeOfDay

def dateText (t : CivilTime) : List Char :=
  digits 4 t.year ++ '-' :: (digits 2 t.month ++ '-' :: digits 2 t.day)

/-- The end of the text: the fraction, if there is one, and the offset. -/
def fraction (t : CivilTime) : List Char :=
  if t.microsecond = 0 then ['+', '0', '0', ':', '0', '0']
  else '.' :: (digits 6 t.microsecond ++ ['+', '0', '0', ':', '0', '0'])

def timeText (t : CivilTime) : List Char :=
  digits 2 t.hour ++ ':' :: (digits 2 t.minute ++ ':' :: (digits 2 t.second ++ t.fraction))

/-- `t.isoformat()` -/
def isoformat (t : CivilTime) : String := String.ofList (t.dateText ++ 'T' :: t.timeText)

/-- The fields in UTC of an instant. -/
def ofInstant (instant : Int) : CivilTime :=
  let micros := (instant + 719163 * 86400000000).toNat
  let ordinal := micros / 86400000000
  let time := micros % 86400000000
  let year := Nat.findGreatest (fun year => daysBeforeYear year < ordinal) 9999
  let month := Nat.findGreatest
    (fun month => daysBeforeYear year + daysBeforeMonth year month < ordinal) 12
  { year, month
    day := ordinal - daysBeforeYear year - daysBeforeMonth year month
    hour := time / 3600000000
    minute := time / 60000000 % 60
    second := time / 1000000 % 60
    microsecond := time % 1000000 }

end CivilTime

/-- A `datetime` in UTC. -/
structure DateTime extends CivilTime where
  hyear : 1 ≤ year ∧ year ≤ 9999
  hmonth : 1 ≤ month ∧ month ≤ 12
  hday : 1 ≤ day ∧ day ≤ daysInMonth year month
  hhour : hour < 24
  hminute : minute < 60
  hsecond : second < 60
  hmicrosecond : microsecond < 1000000

example : (CivilTime.mk 2024 2 29 23 59 59 1).isoformat = "2024-02-29T23:59:59.000001+00:00" := by
  decide

/-! ## The order of the days -/

theorem isLeapYear_iff {year : Nat} :
    isLeapYear year = true ↔ 4 ∣ year ∧ (¬ 100 ∣ year ∨ 400 ∣ year) := by
  simp [isLeapYear, Nat.dvd_iff_mod_eq_zero]

theorem daysBeforeYear_succ {year : Nat} (h : 1 ≤ year) :
    daysBeforeYear (year + 1) = daysBeforeYear year + (if isLeapYear year then 366 else 365) := by
  rcases Nat.exists_eq_add_of_le' h with ⟨k, rfl⟩
  have hle : k / 100 ≤ k / 4 := Nat.div_le_div_left (by decide) (by decide)
  have h100 : 100 ∣ k + 1 → 4 ∣ k + 1 := fun h => (by decide : 4 ∣ 100).trans h
  have h400 : 400 ∣ k + 1 → 100 ∣ k + 1 := fun h => (by decide : 100 ∣ 400).trans h
  simp only [daysBeforeYear, Nat.add_sub_cancel, Nat.succ_div, isLeapYear_iff]
  generalize k / 4 = fourth at hle
  generalize k / 100 = hundredth at hle
  -- the multiples of 4, of these of 100, of these of 400
  by_cases h₄ : 4 ∣ k + 1
  · by_cases h₁₀₀ : 100 ∣ k + 1
    · by_cases h₄₀₀ : 400 ∣ k + 1
      · simp only [h₄, h₁₀₀, h₄₀₀, if_true, not_true, or_true, and_self]
        omega
      · simp only [h₄, h₁₀₀, h₄₀₀, if_true, if_false, not_true, or_self, and_false]
        omega
    · have h₄₀₀ : ¬ 400 ∣ k + 1 := fun h => h₁₀₀ (h400 h)
      simp only [h₄, h₁₀₀, h₄₀₀, if_true, if_false, not_false_iff, true_or, and_self]
      omega
  · have h₁₀₀ : ¬ 100 ∣ k + 1 := fun h => h₄ (h100 h)
    have h₄₀₀ : ¬ 400 ∣ k + 1 := fun h => h₁₀₀ (h400 h)
    simp only [h₄, h₁₀₀, h₄₀₀, if_false, false_and]
    omega

theorem daysBeforeYear_mono {y y' : Nat} (h : y ≤ y') : daysBeforeYear y ≤ daysBeforeYear y' := by
  induction h with
  | refl => exact le_rfl
  | @step y' _ ih =>
    cases y' with
    | zero => exact ih
    | succ y' =>
      rw [Nat.succ_eq_add_one, daysBeforeYear_succ (Nat.succ_pos y')]
      exact ih.trans (Nat.le_add_right _ _)

theorem daysBeforeMonth_succ (year : Nat) {month : Nat} (h : 1 ≤ month) :
    daysBeforeMonth year (month + 1) = daysBeforeMonth year month + daysInMonth year month := by
  cases month with
  | zero => cases h
  | succ month => rfl

theorem daysBeforeMonth_mono (year : Nat) {m m' : Nat} (h : m ≤ m') :
    daysBeforeMonth year m ≤ daysBeforeMonth year m' := by
  induction h with
  | refl => exact le_rfl
  | @step m' _ ih =>
    cases m' with
    | zero => exact ih
    | succ m' => exact ih.trans (Nat.le_add_right _ _)

/-- The months make up the year. -/
theorem daysBeforeMonth_end (year : Nat) :
    daysBeforeMonth year 13 = if isLeapYear year then 366 else 365 := by
  cases hleap : isLeapYear year <;> simp [daysBeforeMonth, daysInMonth, hleap]

namespace DateTime

/-- The fields of the date as the digits of one number. -/
def dateFields (d : DateTime) : Nat := d.year * 416 + (d.month * 32 + d.day)

theorem day_lt (d : DateTime) : d.day < 32 := by
  have hday := d.hday.2
  unfold daysInMonth at hday
  split at hday
  · split at hday <;> omega
  · split at hday <;> omega

theorem dayOfYear_le (d : DateTime) {m : Nat} (h : d.month < m) :
    daysBeforeMonth d.year d.month + d.day ≤ daysBeforeMonth d.year m := by
  have hsucc := daysBeforeMonth_succ d.year d.hmonth.1
  have hmono := daysBeforeMonth_mono d.year h
  have hday := d.hday.2
  simp only [Nat.succ_eq_add_one] at hmono
  omega

theorem toOrdinal_lt {a b : DateTime} (h : a.dateFields < b.dateFields) :
    a.toOrdinal < b.toOrdinal := by
  have hmonth := a.hmonth
  have hmonth' := b.hmonth
  have hday := a.day_lt
  have hday' := b.day_lt
  have hfirst := b.hday.1
  unfold dateFields at h
  rcases lt_trichotomy a.year b.year with hyear | hyear | hyear
  · -- the last day of a year comes before the next year
    have hend := a.dayOfYear_le (m := 13) (by omega)
    have hsucc := daysBeforeYear_succ a.hyear.1
    have hmono := daysBeforeYear_mono hyear
    rw [daysBeforeMonth_end] at hend
    simp only [Nat.succ_eq_add_one] at hmono
    unfold CivilTime.toOrdinal
    omega
  · rcases lt_trichotomy a.month b.month with hm | hm | hm
    · have hend := a.dayOfYear_le hm
      unfold CivilTime.toOrdinal
      rw [← hyear]
      omega
    · unfold CivilTime.toOrdinal
      rw [← hyear, ← hm]
      omega
    · omega
  · omega

theorem toOrdinal_lt_iff (a b : DateTime) :
    a.dateFields < b.dateFields ↔ a.toOrdinal < b.toOrdinal := by
  constructor
  · exact toOrdinal_lt
  · intro h
    rcases lt_trichotomy a.dateFields b.dateFields with hlt | heq | hgt
    · exact hlt
    · -- the same fields are the same day
      have hmonth := a.hmonth
      have hmonth' := b.hmonth
      have hday := a.day_lt
      have hday' := b.day_lt
      unfold dateFields at heq
      have hyear : a.year = b.year := by omega
      have hm : a.month = b.month := by omega
      have hd : a.day = b.day := by omega
      unfold CivilTime.toOrdinal at h
      rw [hyear, hm, hd] at h
      exact absurd h (lt_irrefl _)
    · exact absurd (toOrdinal_lt hgt) (lt_asymm h)

/-! ## The order of the texts -/

theorem timeOfDay_lt (d : DateTime) : d.timeOfDay < 86400000000 := by
  have hhour := d.hhour
  have hminute := d.hminute
  have hsecond := d.hsecond
  have hmicrosecond := d.hmicrosecond
  unfold CivilTime.timeOfDay
  omega

theorem wide_dateText : Wide 10 fun d : DateTime => d.dateText :=
  (wide_digits 4 fun d : DateTime => d.year).append
    (((wide_digits 2 fun d : DateTime => d.month).append
      ((wide_digits 2 fun d : DateTime => d.day).cons '-')).cons '-')

theorem sorts_dateText : Sorts (fun d : DateTime => d.dateText) fun d => d.toOrdinal := by
  have hmonth : Sorts (fun d : DateTime => digits 2 d.month ++ '-' :: digits 2 d.day)
      fun d => d.month * 32 + d.day :=
    (sorts_digits fun d => lt_of_le_of_lt d.hmonth.2 (by decide)).append (wide_digits 2 _)
      ((sorts_digits fun d => d.day_lt.trans (by decide)).cons '-') day_lt
  have hlow : ∀ d : DateTime, d.month * 32 + d.day < 416 := by
    intro d
    have hmonth := d.hmonth.2
    have hday := d.day_lt
    omega
  exact ((sorts_digits fun d => lt_of_le_of_lt d.hyear.2 (by decide)).append (wide_digits 4 _)
    (hmonth.cons '-') hlow).congr toOrdinal_lt_iff

/-- Without a fraction comes before any fraction. -/
theorem sorts_fraction : Sorts (fun d : DateTime => d.fraction) fun d => d.microsecond := by
  intro a b
  have hdigits : Sorts (fun d : DateTime =>
      digits 6 d.microsecond ++ ['+', '0', '0', ':', '0', '0']) fun d => d.microsecond :=
    (sorts_digits fun d => d.hmicrosecond).append_const (wide_digits 6 _) _
  -- no fraction sorts below any: `+` is before `.`
  have hdot : ∀ s : List Char, ['+', '0', '0', ':', '0', '0'] < '.' :: s := by
    intro s
    exact List.cons_lt_cons_iff.mpr (.inl (by decide))
  show a.fraction < b.fraction ↔ a.microsecond < b.microsecond
  unfold CivilTime.fraction
  split
  · next ha =>
    split
    · next hb =>
      rw [ha, hb]
      simp
    · next hb =>
      rw [ha]
      simp only [hdot, true_iff]
      omega
  · next ha =>
    split
    · next hb =>
      rw [hb]
      simp only [Nat.not_lt_zero, iff_false]
      exact lt_asymm (hdot _)
    · exact (hdigits.cons '.') a b

theorem sorts_timeText : Sorts (fun d : DateTime => d.timeText) fun d => d.timeOfDay := by
  have hsecond : Sorts (fun d : DateTime => digits 2 d.second ++ d.fraction)
      fun d => d.second * 1000000 + d.microsecond :=
    (sorts_digits fun d => d.hsecond.trans (by decide)).append (wide_digits 2 _) sorts_fraction
      hmicrosecond
  have hlow : ∀ d : DateTime, d.second * 1000000 + d.microsecond < 60000000 :=
    fun d => mixed_lt d.hsecond d.hmicrosecond
  have hminute : Sorts (fun d : DateTime => digits 2 d.minute ++ ':' :: (digits 2 d.second ++
      d.fraction)) fun d => d.minute * 60000000 + (d.second * 1000000 + d.microsecond) :=
    (sorts_digits fun d => d.hminute.trans (by decide)).append (wide_digits 2 _)
      (hsecond.cons ':') hlow
  have hlow' : ∀ d : DateTime,
      d.minute * 60000000 + (d.second * 1000000 + d.microsecond) < 3600000000 :=
    fun d => mixed_lt d.hminute (hlow d)
  refine ((sorts_digits fun d => d.hhour.trans (by decide)).append (wide_digits 2 _)
    (hminute.cons ':') hlow').congr ?_
  intro a b
  show a.hour * 3600000000 + (a.minute * 60000000 + (a.second * 1000000 + a.microsecond)) <
    b.hour * 3600000000 + (b.minute * 60000000 + (b.second * 1000000 + b.microsecond)) ↔ _
  unfold CivilTime.timeOfDay
  omega

/-- The texts sort like the instants. -/
theorem isoformat_lt_iff (a b : DateTime) :
    a.isoformat.toList < b.isoformat.toList ↔ a.instant < b.instant := by
  have htext := sorts_dateText.append wide_dateText (sorts_timeText.cons 'T') timeOfDay_lt
  unfold CivilTime.isoformat
  rw [String.toList_ofList, String.toList_ofList, htext a b]
  show a.toOrdinal * 86400000000 + a.timeOfDay < b.toOrdinal * 86400000000 + b.timeOfDay ↔ _
  unfold CivilTime.instant
  omega

/-! ## From an instant to its text -/

theorem yearOfOrdinal (d : DateTime) :
    Nat.findGreatest (fun year => daysBeforeYear year < d.toOrdinal) 9999 = d.year := by
  rw [Nat.findGreatest_eq_iff]
  have hday := d.hday.1
  refine ⟨d.hyear.2, ?_, ?_⟩
  · intro _
    unfold CivilTime.toOrdinal
    omega
  · intro year hlt _
    have hend := d.dayOfYear_le (m := 13) (by have := d.hmonth.2; omega)
    have hsucc := daysBeforeYear_succ d.hyear.1
    have hmono := daysBeforeYear_mono hlt
    rw [daysBeforeMonth_end] at hend
    simp only [Nat.succ_eq_add_one] at hmono
    unfold CivilTime.toOrdinal
    omega

theorem monthOfOrdinal (d : DateTime) :
    Nat.findGreatest (fun month => daysBeforeYear d.year + daysBeforeMonth d.year month <
      d.toOrdinal) 12 = d.month := by
  rw [Nat.findGreatest_eq_iff]
  have hday := d.hday.1
  refine ⟨d.hmonth.2, ?_, ?_⟩
  · intro _
    unfold CivilTime.toOrdinal
    omega
  · intro month hlt _
    have hend := d.dayOfYear_le hlt
    unfold CivilTime.toOrdinal
    omega

theorem secondOfDay (d : DateTime) :
    d.timeOfDay / 1000000 = (d.hour * 60 + d.minute) * 60 + d.second := by
  have hmicrosecond := d.hmicrosecond
  unfold CivilTime.timeOfDay
  omega

/-- The fields can be read off the instant. -/
theorem ofInstant_instant (d : DateTime) : CivilTime.ofInstant d.instant = d.toCivilTime := by
  have htime := d.timeOfDay_lt
  -- days and time of day are read off the instant by division
  have hmicros : (d.instant + 719163 * 86400000000).toNat =
      d.toOrdinal * 86400000000 + d.timeOfDay := by
    unfold CivilTime.instant
    omega
  have hordinal : (d.toOrdinal * 86400000000 + d.timeOfDay) / 86400000000 = d.toOrdinal := by
    omega
  have hrest : (d.toOrdinal * 86400000000 + d.timeOfDay) % 86400000000 = d.timeOfDay := by
    omega
  have hminutes : d.timeOfDay / 60000000 = d.timeOfDay / 1000000 / 60 :=
    (Nat.div_div_eq_div_mul _ 1000000 60).symm
  have hhours : d.timeOfDay / 3600000000 = d.timeOfDay / 1000000 / 60 / 60 := by
    rw [Nat.div_div_eq_div_mul, Nat.div_div_eq_div_mul]
  have hmicro : d.timeOfDay % 1000000 = d.microsecond := by
    unfold CivilTime.timeOfDay
    rw [Nat.mul_add_mod_self_right, Nat.mod_eq_of_lt d.hmicrosecond]
  have hminute := d.hminute
  have hsecond := d.hsecond
  simp only [CivilTime.ofInstant, hmicros, hordinal, hrest, d.yearOfOrdinal, d.monthOfOrdinal,
    hhours, hminutes, d.secondOfDay, hmicro]
  rw [CivilTime.ext_iff]
  refine ⟨rfl, rfl, ?_, ?_, ?_, ?_, rfl⟩
  · show d.toOrdinal - _ - _ = d.day
    unfold CivilTime.toOrdinal
    omega
  · show ((d.hour * 60 + d.minute) * 60 + d.second) / 60 / 60 = d.hour
    omega
  · show ((d.hour * 60 + d.minute) * 60 + d.second) / 60 % 60 = d.minute
    omega
  · show ((d.hour * 60 + d.minute) * 60 + d.second) % 60 = d.second
    omega

end DateTime

end TallyConnector
