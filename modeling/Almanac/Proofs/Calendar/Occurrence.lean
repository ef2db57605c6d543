import Almanac.Proofs.Calendar.Order
import Mathlib.Data.Int.ModEq
import Mathlib.Order.Bounds.Defs

/-!
# The next date

Dates are ordered by year, month and day. After a date, the next one that is a given day of the week
comes within seven days, and the next one that begins a month is the first of the next month. A date
comes again after 366 days exactly if there is a leap day after it, up to the date a year later.
-/

namespace Almanac.Calendar

namespace Date

variable {d e f : Date} {m : Nat} {n : Int}

/-! ### The order of dates -/

instance : LT Date := ⟨Before⟩

instance : LE Date := ⟨fun d e => d < e ∨ d = e⟩

theorem lt_def : d < e ↔ d.Before e := Iff.rfl

theorem le_def : d ≤ e ↔ d < e ∨ d = e := Iff.rfl

theorem lt_iff_index_lt : d < e ↔ d.index < e.index :=
  index_lt_index_iff.symm

theorem le_iff_index_le : d ≤ e ↔ d.index ≤ e.index := by
  rw [le_def, lt_iff_index_lt, Nat.le_iff_lt_or_eq]
  exact or_congr_right ⟨congrArg index, eq_of_index_eq⟩

theorem le_of_not_lt (h : ¬e < d) : d ≤ e := by
  rw [lt_iff_index_lt] at h
  exact le_iff_index_le.mpr (Nat.le_of_not_lt h)

/-! ### Days of the week -/

/-- The day of the week; Monday is 0 and Sunday 6. -/
def weekday (d : Date) : Nat :=
  d.index % 7

/-- A week has only one of each of its days. -/
theorem isLeast_weekday (he : e.index = d.index + m) (hm : 1 ≤ m) (hm' : m ≤ 7)
    (hn : (e.weekday : Int) ≡ n [ZMOD 7]) :
    IsLeast {f : Date | d < f ∧ (f.weekday : Int) ≡ n [ZMOD 7]} e := by
  constructor
  · exact ⟨lt_iff_index_lt.mpr (by omega), hn⟩
  · rintro f ⟨hlt, hf⟩
    have hsame : (f.weekday : Int) ≡ e.weekday [ZMOD 7] := hf.trans hn.symm
    rw [lt_iff_index_lt] at hlt
    rw [le_iff_index_le]
    rw [Int.ModEq, weekday, weekday] at hsame
    omega

/-! ### Beginnings of months -/

/-- No month begins between a date and the first of the next month. -/
theorem isLeast_first (h : e.day = 1)
    (hnext : e.year = d.year ∧ e.month = d.month + 1 ∨
      d.month = 12 ∧ e.year = d.year + 1 ∧ e.month = 1) :
    IsLeast {f : Date | d < f ∧ f.day = 1} e := by
  have hday := d.day_pos
  constructor
  · refine ⟨?_, h⟩
    rw [lt_def, Before]
    omega
  · rintro f ⟨hlt, hf⟩
    have hmonth := f.month_pos
    have hmonth' := f.month_le
    rw [lt_def, Before] at hlt
    apply le_of_not_lt
    rw [lt_def, Before]
    omega

/-! ### Leap days -/

/-- The leap day of a leap year. -/
def leapDay (year : Nat) (h : isLeap year = true) (hy : 1 ≤ year) (hy' : year ≤ lastYear) : Date :=
  ⟨year, 2, 29, hy, hy', by decide, by decide, by decide, by rw [daysInMonth_two, if_pos h]⟩

theorem isLeapDay_leapDay {year : Nat} (h : isLeap year = true) (hy : 1 ≤ year)
    (hy' : year ≤ lastYear) : (leapDay year h hy hy').IsLeapDay :=
  ⟨rfl, rfl⟩

/-- A day of February that no common year has is a leap day. -/
theorem isLeapDay_of_le_day (hm : d.month = 2) (hd : 29 ≤ d.day) : d.IsLeapDay := by
  have hle := d.day_le
  rw [hm, daysInMonth_two] at hle
  refine ⟨hm, ?_⟩
  split at hle <;> omega

/-- Whether there is a leap day after a date, up to another. -/
def HasLeapDayUpTo (d f : Date) : Prop :=
  ∃ l : Date, l.IsLeapDay ∧ d < l ∧ l ≤ f

theorem ComesAgain.hasLeapDayUpTo (hf : d.ComesAgain f) (h : d.PassesLeapDay) :
    d.HasLeapDayUpTo f := by
  rcases h with ⟨hm, hleap, hn⟩ | ⟨hm, hleap⟩
  · refine ⟨leapDay d.year hleap d.year_pos d.year_le, isLeapDay_leapDay .., ?_, ?_⟩
    · refine .inr ⟨rfl, ?_⟩
      rcases Nat.lt_or_eq_of_le hm with hlt | heq
      · exact .inl hlt
      · exact .inr ⟨heq, Nat.lt_of_not_le fun hd => hn (isLeapDay_of_le_day heq hd)⟩
    · exact .inl (.inl (by rw [hf.year]; exact Nat.lt_succ_self _))
  · have hy : d.year + 1 ≤ lastYear := by
      rw [← hf.year]
      exact f.year_le
    refine ⟨leapDay (d.year + 1) hleap (Nat.succ_pos _) hy, isLeapDay_leapDay .., ?_, ?_⟩
    · exact .inl (Nat.lt_succ_self _)
    · exact .inl (.inr ⟨hf.year.symm, .inl (by rw [hf.month]; exact hm)⟩)

theorem ComesAgain.passesLeapDay (hf : d.ComesAgain f) (h : d.HasLeapDayUpTo f) :
    d.PassesLeapDay := by
  obtain ⟨l, hl, hlt, hle⟩ := h
  have hyear := hf.year
  have hmonth := hf.month
  have hday := hf.day_le
  obtain ⟨hlm, hld⟩ := id hl
  have hnot : ¬f.Before l := by
    rw [le_iff_index_le] at hle
    intro h
    exact absurd h.index_lt (Nat.not_lt.mpr hle)
  rw [lt_def] at hlt
  simp only [Before] at hlt hnot
  -- the leap day is in one of the two years
  rcases Nat.lt_or_ge d.year l.year with hy | hy
  · have hy' : l.year = d.year + 1 := by omega
    refine .inr ⟨?_, by rw [← hy']; exact hl.isLeap⟩
    apply Nat.lt_of_not_le
    intro hm
    have hd := isLeapDay_of_le_day (d := d) (by omega) (by omega)
    have hfd := hf.day
    rw [if_pos hd] at hfd
    omega
  · have hy' : l.year = d.year := by omega
    refine .inl ⟨by omega, by rw [← hy']; exact hl.isLeap, ?_⟩
    rintro ⟨hm, hd⟩
    omega

/-- A leap day is passed exactly if there is one after the date, up to the date a year later. -/
theorem ComesAgain.passesLeapDay_iff (hf : d.ComesAgain f) :
    d.PassesLeapDay ↔ d.HasLeapDayUpTo f :=
  ⟨hf.hasLeapDayUpTo, hf.passesLeapDay⟩

end Date

namespace Wall

variable {v w : Wall}

theorem weekday_date (w : Wall) : w.date.weekday = w.weekday := by
  rw [Date.weekday, index_date, weekday]

theorem isLeast_firstOfNextMonth (h : w.firstOfNextMonth = .ok v) :
    IsLeast {d : Date | w.date < d ∧ d.day = 1} v.date := by
  obtain ⟨e, he, rfl⟩ := onDate_eq_ok_iff.mp h
  rw [date_on]
  split at he
  · next hlast =>
    obtain ⟨hy, hm, hd⟩ := Date.make_eq_ok_iff.mp he
    exact Date.isLeast_first hd (.inr ⟨hlast, hy, hm⟩)
  · obtain ⟨hy, hm, hd⟩ := Date.make_eq_ok_iff.mp he
    exact Date.isLeast_first hd (.inl ⟨hy, hm⟩)

end Wall

end Almanac.Calendar
