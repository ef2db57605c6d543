/-!
# Calendar dates

Dates of the Gregorian calendar from year 1 to year 9999, counted in days from the first of
January of year 1. A date has a year, a month and a day of the month; a day count and a date
determine each other.
-/

namespace Almanac.Calendar

/-! ### Years and months -/

/-- All of some numbers together. -/
def total : List Nat → Nat
  | []      => 0
  | n :: ns => n + total ns

@[simp] theorem total_nil : total [] = 0 := rfl

@[simp] theorem total_cons (n : Nat) (ns : List Nat) : total (n :: ns) = n + total ns := rfl

/-- The last year of the calendar. -/
def lastYear : Nat := 9999

/-- The number of days from the first day of year 1 to the last day of year 9999. -/
def dayCount : Nat := 3652059

/-- Whether February has 29 days. -/
def isLeap (year : Nat) : Bool :=
  year % 4 == 0 && (year % 100 != 0 || year % 400 == 0)

/-- The lengths of the months of a year. -/
def monthLengths (year : Nat) : List Nat :=
  [31, if isLeap year then 29 else 28, 31, 30, 31, 30, 31, 31, 30, 31, 30, 31]

/-- The number of days in a month, counted from 1. -/
def daysInMonth (year month : Nat) : Nat :=
  (monthLengths year).getD (month - 1) 0

/-- The number of days before the first of January. -/
def daysBeforeYear (year : Nat) : Nat :=
  let p := year - 1
  365 * p + p / 4 - p / 100 + p / 400

/-- The number of days of a year before the first of a month. -/
def daysBeforeMonth (year month : Nat) : Nat :=
  total ((monthLengths year).take (month - 1))

/-- The number of days in a year. -/
def daysInYear (year : Nat) : Nat :=
  if isLeap year then 366 else 365

theorem total_monthLengths (year : Nat) : total (monthLengths year) = daysInYear year := by
  by_cases h : isLeap year <;> simp [monthLengths, daysInYear, h]

@[simp] theorem length_monthLengths (year : Nat) : (monthLengths year).length = 12 := rfl

theorem daysBeforeYear_succ {year : Nat} (h : 1 ≤ year) :
    daysBeforeYear (year + 1) = daysBeforeYear year + daysInYear year := by
  obtain ⟨a, b, c, d, hb, hc, hd, rfl⟩ : ∃ a b c d, b < 4 ∧ c < 25 ∧ d < 4 ∧
      year = 400 * a + 100 * b + 4 * c + d + 1 :=
    ⟨(year - 1) / 400, (year - 1) % 400 / 100, (year - 1) % 100 / 4, (year - 1) % 4, by omega,
      by omega, by omega, by omega⟩
  have h₁ : (400 * a + 100 * b + 4 * c + d) / 4 = 100 * a + 25 * b + c := by omega
  have h₂ : (400 * a + 100 * b + 4 * c + d) / 100 = 4 * a + b := by omega
  have h₃ : (400 * a + 100 * b + 4 * c + d) / 400 = a := by omega
  have hl : daysInYear (400 * a + 100 * b + 4 * c + d + 1) =
      if d = 3 ∧ (c ≠ 24 ∨ b = 3) then 366 else 365 := by
    have e₁ : (400 * a + 100 * b + 4 * c + d + 1) % 4 = 0 ↔ d = 3 := by omega
    have e₂ : (400 * a + 100 * b + 4 * c + d + 1) % 100 = 0 ↔ d = 3 ∧ c = 24 := by omega
    have e₃ : (400 * a + 100 * b + 4 * c + d + 1) % 400 = 0 ↔ d = 3 ∧ c = 24 ∧ b = 3 := by omega
    simp only [daysInYear, isLeap, Bool.and_eq_true, Bool.or_eq_true, beq_iff_eq, bne_iff_ne,
      ne_eq, e₁, e₂, e₃]
    congr 1
    simp only [eq_iff_iff]
    omega
  have h₄ : (400 * a + 100 * b + 4 * c + d + 1) / 4 =
      100 * a + 25 * b + c + if d = 3 then 1 else 0 := by split <;> omega
  have h₅ : (400 * a + 100 * b + 4 * c + d + 1) / 100 =
      4 * a + b + if d = 3 ∧ c = 24 then 1 else 0 := by split <;> omega
  have h₆ : (400 * a + 100 * b + 4 * c + d + 1) / 400 =
      a + if d = 3 ∧ c = 24 ∧ b = 3 then 1 else 0 := by split <;> omega
  simp only [hl, daysBeforeYear, Nat.add_sub_cancel, h₁, h₂, h₃, h₄, h₅, h₆]
  clear hl h₁ h₂ h₃ h₄ h₅ h₆ h
  by_cases hd3 : d = 3 <;> by_cases hc24 : c = 24 <;> by_cases hb3 : b = 3 <;>
    simp [hd3, hc24, hb3] <;> omega

theorem daysBeforeYear_lastYear : daysBeforeYear (lastYear + 1) = dayCount := by decide

theorem daysBeforeYear_mono {y z : Nat} (h : y ≤ z) : daysBeforeYear y ≤ daysBeforeYear z := by
  have h₁ (p : Nat) : p / 100 = p / 4 / 25 := by omega
  have h₂ (p : Nat) : p / 400 = p / 4 / 25 / 4 := by omega
  simp only [daysBeforeYear, h₁, h₂]
  have h₃ : (y - 1) / 4 ≤ (z - 1) / 4 := by omega
  generalize (y - 1) / 4 = a at h₃ ⊢
  generalize (z - 1) / 4 = b at h₃ ⊢
  have h₄ : b / 25 + a ≤ a / 25 + b := by omega
  have h₅ : a / 25 / 4 ≤ b / 25 / 4 := by omega
  omega

/-! ### Dates -/

/-- A day of the calendar. -/
structure Date where
  year  : Nat
  month : Nat
  day   : Nat
  year_pos  : 1 ≤ year
  year_le   : year ≤ lastYear
  month_pos : 1 ≤ month
  month_le  : month ≤ 12
  day_pos   : 1 ≤ day
  day_le    : day ≤ daysInMonth year month
  deriving DecidableEq

/-- Why three numbers are no date. -/
inductive DateError where
  | year (year : Nat)
  | month
  | day
  deriving DecidableEq, Repr

/-- What is said of numbers that are no date. -/
def DateError.message : DateError → String
  | .year y => s!"year {y} is out of range"
  | .month  => "month must be in 1..12"
  | .day    => "day is out of range for month"

/-- The date with the given numbers. The year is looked at first and the day last. -/
def Date.make (year month day : Nat) : Except DateError Date :=
  if hy : 1 ≤ year ∧ year ≤ lastYear then
    if hm : 1 ≤ month ∧ month ≤ 12 then
      if hd : 1 ≤ day ∧ day ≤ daysInMonth year month then
        .ok ⟨year, month, day, hy.1, hy.2, hm.1, hm.2, hd.1, hd.2⟩
      else .error .day
    else .error .month
  else .error (.year year)

/-- The number of days from the first day of year 1. -/
def Date.index (d : Date) : Nat :=
  daysBeforeYear d.year + daysBeforeMonth d.year d.month + (d.day - 1)

theorem daysBeforeMonth_add_le (year : Nat) {month : Nat} (h₁ : 1 ≤ month) (h₂ : month ≤ 12) :
    daysBeforeMonth year month + daysInMonth year month ≤ daysInYear year := by
  have : month = 1 ∨ month = 2 ∨ month = 3 ∨ month = 4 ∨ month = 5 ∨ month = 6 ∨ month = 7 ∨
      month = 8 ∨ month = 9 ∨ month = 10 ∨ month = 11 ∨ month = 12 := by omega
  by_cases hl : isLeap year <;>
    rcases this with rfl | rfl | rfl | rfl | rfl | rfl | rfl | rfl | rfl | rfl | rfl | rfl <;>
    simp [daysBeforeMonth, daysInMonth, daysInYear, monthLengths, hl]

theorem Date.index_lt_daysBeforeYear (d : Date) : d.index < daysBeforeYear (d.year + 1) := by
  have h₁ := daysBeforeYear_succ d.year_pos
  have h₂ := daysBeforeMonth_add_le d.year d.month_pos d.month_le
  have h₃ := d.day_le
  have h₄ := d.day_pos
  simp only [Date.index]
  omega

theorem Date.index_lt (d : Date) : d.index < dayCount := by
  have h₁ := d.index_lt_daysBeforeYear
  have h₂ := daysBeforeYear_mono (Nat.succ_le_succ d.year_le)
  rw [daysBeforeYear_lastYear] at h₂
  exact Nat.lt_of_lt_of_le h₁ h₂

/-! ### The date of a day count -/

/-- The year of a day count: a guess from the mean length of a year, which is off by one at most. -/
def yearOf (n : Nat) : Nat :=
  let guess := 400 * n / 146097 + 1
  if n < daysBeforeYear guess then guess - 1
  else if daysBeforeYear (guess + 1) ≤ n then guess + 1
  else guess

theorem yearOf_spec (n : Nat) :
    1 ≤ yearOf n ∧ daysBeforeYear (yearOf n) ≤ n ∧ n < daysBeforeYear (yearOf n + 1) := by
  have h₁ : 146097 * (400 * n / 146097) ≤ 400 * n := Nat.mul_div_le ..
  have h₂ : 400 * n < 146097 * (400 * n / 146097 + 1) := Nat.lt_mul_div_succ _ (by decide)
  simp only [yearOf]
  generalize 400 * n / 146097 = g at h₁ h₂ ⊢
  split
  · next h =>
    simp only [daysBeforeYear] at h ⊢
    refine ⟨?_, ?_, ?_⟩ <;> omega
  · next h =>
    split
    · next h' =>
      simp only [daysBeforeYear] at h h' ⊢
      refine ⟨?_, ?_, ?_⟩ <;> omega
    · next h' =>
      simp only [daysBeforeYear] at h h' ⊢
      refine ⟨?_, ?_, ?_⟩ <;> omega

theorem yearOf_le {n : Nat} (h : n < dayCount) : yearOf n ≤ lastYear := by
  have h₁ := (yearOf_spec n).2.1
  rw [← daysBeforeYear_lastYear] at h
  refine Nat.le_of_not_lt fun hy => ?_
  have := daysBeforeYear_mono (Nat.succ_le_of_lt hy)
  exact absurd (Nat.lt_of_lt_of_le h this) (Nat.not_lt.2 h₁)

/-- Days counted through months of the given lengths: the months passed, and the days left. -/
def throughMonths : List Nat → Nat → Nat × Nat
  | [],      n => (0, n)
  | l :: ls, n =>
    if n < l then (0, n)
    else
      let r := throughMonths ls (n - l)
      (r.1 + 1, r.2)

theorem throughMonths_spec (ls : List Nat) (n : Nat) (h : n < total ls) :
    (throughMonths ls n).1 < ls.length ∧
      (throughMonths ls n).2 < ls.getD (throughMonths ls n).1 0 ∧
      total (ls.take (throughMonths ls n).1) + (throughMonths ls n).2 = n := by
  induction ls generalizing n with
  | nil => simp at h
  | cons l ls ih =>
    simp only [throughMonths]
    split
    · next hl => simp [hl]
    · next hl =>
      simp only [total_cons] at h
      obtain ⟨h₁, h₂, h₃⟩ := ih (n - l) (by omega)
      refine ⟨by simpa using h₁, by simpa using h₂, ?_⟩
      simp only [List.take_succ_cons, total_cons]
      omega

theorem sub_daysBeforeYear_lt (n : Nat) :
    n - daysBeforeYear (yearOf n) < total (monthLengths (yearOf n)) := by
  obtain ⟨h₁, h₂, h₃⟩ := yearOf_spec n
  rw [total_monthLengths]
  rw [daysBeforeYear_succ h₁] at h₃
  omega

/-- The date of a day count. -/
def Date.ofIndex (n : Nat) (h : n < dayCount) : Date :=
  let year := yearOf n
  let passed := throughMonths (monthLengths year) (n - daysBeforeYear year)
  { year := year, month := passed.1 + 1, day := passed.2 + 1
    year_pos := (yearOf_spec n).1
    year_le := yearOf_le h
    month_pos := Nat.le_add_left ..
    month_le := by
      exact (throughMonths_spec _ _ (sub_daysBeforeYear_lt n)).1
    day_pos := Nat.le_add_left ..
    day_le := by
      exact (throughMonths_spec _ _ (sub_daysBeforeYear_lt n)).2.1 }

@[simp] theorem Date.index_ofIndex (n : Nat) (h : n < dayCount) : (Date.ofIndex n h).index = n := by
  have h₁ := (throughMonths_spec _ _ (sub_daysBeforeYear_lt n)).2.2
  have h₂ := (yearOf_spec n).2.1
  simp only [Date.index, Date.ofIndex, daysBeforeMonth, Nat.add_sub_cancel]
  omega

end Almanac.Calendar
