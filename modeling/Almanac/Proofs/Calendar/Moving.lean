import Almanac.Calendar.Instant

/-!
# Moving within the calendar

A date is made of the numbers of a day in the calendar, and of no others. Before the last year of
the calendar there is room for a year: a time can be moved ahead by a week, and the next month has
a first day. Near its end a time can be moved ahead by some days exactly if the day reached is not
past the last one.
-/

namespace Almanac.Calendar

/-! ### Dates from numbers -/

theorem daysInMonth_mem (year : Nat) {month : Nat} (hm : 1 ≤ month) (hm' : month ≤ 12) :
    28 ≤ daysInMonth year month ∧ daysInMonth year month ≤ 31 := by
  have hall : ∀ leap : Bool, ∀ m < 12,
      28 ≤ [31, if leap then 29 else 28, 31, 30, 31, 30, 31, 31, 30, 31, 30, 31].getD m 0 ∧
        [31, if leap then 29 else 28, 31, 30, 31, 30, 31, 31, 30, 31, 30, 31].getD m 0 ≤ 31 := by
    decide
  exact hall (isLeap year) (month - 1) (by omega)

theorem daysBeforeMonth_add_lt (year : Nat) {month : Nat} (hm : 1 ≤ month) (hm' : month < 12) :
    daysBeforeMonth year month + daysInMonth year month < daysInYear year := by
  have hall : ∀ leap : Bool, ∀ m < 11,
      total ([31, if leap then 29 else 28, 31, 30, 31, 30, 31, 31, 30, 31, 30, 31].take m) +
        [31, if leap then 29 else 28, 31, 30, 31, 30, 31, 31, 30, 31, 30, 31].getD m 0 <
          if leap then 366 else 365 := by
    decide
  exact hall (isLeap year) (month - 1) (by omega)

theorem Date.make_self (d : Date) : Date.make d.year d.month d.day = .ok d := by
  rw [make, dif_pos ⟨d.year_pos, d.year_le⟩, dif_pos ⟨d.month_pos, d.month_le⟩,
    dif_pos ⟨d.day_pos, d.day_le⟩]

theorem Date.make_afterLastYear (month day : Nat) :
    Date.make (lastYear + 1) month day = .error (.year (lastYear + 1)) :=
  dif_neg (by decide)

/-- The date of some numbers that make one. -/
def Date.ofNumbers (year month day : Nat) (h : (make year month day).toBool = true) : Date :=
  match make year month day, h with
  | .ok d, _ => d

theorem Date.make_eq_ok_iff {year month day : Nat} {d : Date} :
    make year month day = .ok d ↔ d.year = year ∧ d.month = month ∧ d.day = day := by
  constructor
  · intro h
    rw [make] at h
    split at h
    · split at h
      · split at h
        · rw [← Except.ok.inj h]
          exact ⟨rfl, rfl, rfl⟩
        · cases h
      · cases h
    · cases h
  · rintro ⟨rfl, rfl, rfl⟩
    exact d.make_self

/-- A date is made exactly of the numbers of one. -/
theorem Date.exists_make_iff {year month day : Nat} :
    (∃ d, make year month day = .ok d) ↔
      ∃ d : Date, d.year = year ∧ d.month = month ∧ d.day = day :=
  exists_congr fun _ => make_eq_ok_iff

/-- Every month has a first day. -/
theorem Date.exists_make_first (year month : Nat) (hy : 1 ≤ year) (hl : year ≤ lastYear)
    (hm : 1 ≤ month) (hm' : month ≤ 12) : ∃ d, make year month 1 = .ok d := by
  have hd : 1 ≤ daysInMonth year month := Nat.le_trans (by decide) (daysInMonth_mem year hm hm').1
  exact exists_make_iff.mpr ⟨⟨year, month, 1, hy, hl, hm, hm', Nat.le_refl 1, hd⟩, rfl, rfl, rfl⟩

/-! ### Room to move -/

namespace Wall

variable {w : Wall} {d : Int}

@[simp] theorem dayIndex_atClock (w : Wall) (c : Clock) : (w.atClock c).dayIndex = w.dayIndex := by
  rw [atClock, dayIndex_on, index_date]

@[simp] theorem date_atClock (w : Wall) (c : Clock) : (w.atClock c).date = w.date := by
  simp only [date, dayIndex_atClock]

theorem ticks_eq (w : Wall) : w.ticks = day * w.dayIndex + w.time :=
  (Nat.div_add_mod w.ticks day).symm

/-- Before the last year there is a year left. -/
theorem dayIndex_add_lt (hy : w.date.year < lastYear) : w.dayIndex + 365 < dayCount := by
  have h₁ := w.date.index_lt_daysBeforeYear
  have h₂ : daysBeforeYear (w.date.year + 1) ≤ daysBeforeYear lastYear := daysBeforeYear_mono hy
  have h₃ : daysBeforeYear lastYear + 365 = dayCount := by decide
  rw [index_date] at h₁
  omega

/-- Before the last year, a time can be moved ahead by a week at least. -/
theorem exists_shift (hy : w.date.year < lastYear) (h₀ : 0 ≤ d) (h : d ≤ 7 * day) :
    ∃ v, w.shift d = .ok v := by
  have hroom := dayIndex_add_lt hy
  have hticks := w.ticks_eq
  have htime := w.time_lt
  have hlt : (w.ticks + d).toNat < span := by
    calc (w.ticks + d).toNat ≤ w.ticks + 7 * day := by omega
      _ < day * (w.dayIndex + 8) := by
        rw [Nat.mul_add]
        omega
      _ ≤ span := Nat.mul_le_mul_left day (by omega)
  refine ⟨⟨(w.ticks + d).toNat, hlt⟩, shift_eq_ok_iff.mpr ?_⟩
  show (((w.ticks + d).toNat : Nat) : Int) = w.ticks + d
  omega

/-- Before the last month, there is a first day of the next one. -/
theorem exists_firstOfNextMonth (hne : ¬(w.date.year = lastYear ∧ w.date.month = 12)) :
    ∃ v, w.firstOfNextMonth = .ok v := by
  have hy₁ := w.date.year_pos
  have hy₂ := w.date.year_le
  have hm₁ := w.date.month_pos
  have hm₂ := w.date.month_le
  rw [firstOfNextMonth]
  split
  · next hm =>
    have hy : w.date.year ≠ lastYear := fun h => hne ⟨h, hm⟩
    obtain ⟨d, hd⟩ := Date.exists_make_first (w.date.year + 1) 1 (by omega) (by omega) (by omega)
      (by omega)
    exact ⟨_, by rw [hd, onDate]⟩
  · obtain ⟨d, hd⟩ := Date.exists_make_first w.date.year (w.date.month + 1) hy₁ hy₂ (by omega)
      (by omega)
    exact ⟨_, by rw [hd, onDate]⟩

/-- Before the last year, a date comes again a year later, on the last day of a month that is too
    short for it. -/
theorem exists_nextYear (hy : w.date.year ≠ lastYear) : ∃ v, w.nextYear = .ok v := by
  have h₁ := w.date.year_le
  have h₂ := w.date.day_pos
  have h₃ := (daysInMonth_mem (w.date.year + 1) w.date.month_pos w.date.month_le).1
  obtain ⟨d, hd⟩ : ∃ d, Date.make (w.date.year + 1) w.date.month
      (min w.date.day (daysInMonth (w.date.year + 1) w.date.month)) = .ok d :=
    Date.exists_make_iff.mpr ⟨⟨w.date.year + 1, w.date.month, _, by omega, by omega,
      w.date.month_pos, w.date.month_le, by omega, Nat.min_le_right ..⟩, rfl, rfl, rfl⟩
  exact ⟨_, by rw [nextYear, hd, onDate]⟩

/-! ### No room to move -/

variable {e : CalendarError}

theorem shift_eq_error_iff :
    w.shift d = .error e ↔ ¬(0 ≤ w.ticks + d ∧ w.ticks + d < span) ∧ e = .overflow := by
  rw [shift, ofTicks?]
  by_cases h : 0 ≤ w.ticks + d ∧ w.ticks + d < span
  · simp [h]
  · simp [h, eq_comm]

/-- A time cannot be moved ahead by some days exactly if the day reached is not in the calendar. -/
theorem shift_days_eq_error_iff {n : Nat} :
    w.shift (day * n : Nat) = .error e ↔ dayCount ≤ w.dayIndex + n ∧ e = .overflow := by
  have hticks := w.ticks_eq
  have htime := w.time_lt
  rw [shift_eq_error_iff, span]
  apply and_congr_left
  intro _
  rw [show day = 86400000000 from rfl] at *
  omega

/-- The days from a date to the first of the next month. -/
def daysToNextMonth (w : Wall) : Nat :=
  daysInMonth w.date.year w.date.month - w.date.day + 1

theorem dayIndex_add_daysToNextMonth (w : Wall) :
    w.dayIndex + w.daysToNextMonth = daysBeforeYear w.date.year +
      (daysBeforeMonth w.date.year w.date.month + daysInMonth w.date.year w.date.month) := by
  have h₁ := w.date.day_pos
  have h₂ := w.date.day_le
  rw [← w.index_date, Date.index, daysToNextMonth]
  omega

/-- The first of the next month is not in the calendar exactly in its last month. -/
theorem dayCount_le_nextMonth_iff (w : Wall) :
    dayCount ≤ w.dayIndex + w.daysToNextMonth ↔ w.date.year = lastYear ∧ w.date.month = 12 := by
  have hy := w.date.year_le
  have hm := w.date.month_pos
  have hm' := w.date.month_le
  have hle := daysBeforeMonth_add_le w.date.year hm hm'
  have hs : daysBeforeYear (w.date.year + 1) =
      daysBeforeYear w.date.year + daysInYear w.date.year := daysBeforeYear_succ w.date.year_pos
  rw [dayIndex_add_daysToNextMonth]
  constructor
  · intro h
    constructor
    · apply Nat.le_antisymm hy
      apply Nat.le_of_not_lt
      intro hlt
      have h₁ : daysBeforeYear (w.date.year + 1) ≤ daysBeforeYear lastYear :=
        daysBeforeYear_mono hlt
      have h₂ : daysBeforeYear lastYear < dayCount := by decide
      omega
    · apply Nat.le_antisymm hm'
      apply Nat.le_of_not_lt
      intro hm₁
      have hlt := daysBeforeMonth_add_lt w.date.year hm hm₁
      have h₁ : daysBeforeYear (w.date.year + 1) ≤ daysBeforeYear (lastYear + 1) :=
        daysBeforeYear_mono (by omega)
      rw [daysBeforeYear_lastYear] at h₁
      omega
  · rintro ⟨h₁, h₂⟩
    rw [h₁, h₂]
    decide

theorem firstOfNextMonth_eq_error_iff :
    w.firstOfNextMonth = .error e ↔
      dayCount ≤ w.dayIndex + w.daysToNextMonth ∧ e = .date (.year (lastYear + 1)) := by
  rw [dayCount_le_nextMonth_iff]
  by_cases hy : w.date.year = lastYear ∧ w.date.month = 12
  · rw [firstOfNextMonth, if_pos hy.2, hy.1, Date.make_afterLastYear, onDate]
    simp [hy, eq_comm]
  · obtain ⟨v, hv⟩ := exists_firstOfNextMonth hy
    simp [hv, hy]

theorem nextYear_eq_error_iff :
    w.nextYear = .error e ↔ w.date.year = lastYear ∧ e = .date (.year (lastYear + 1)) := by
  by_cases hy : w.date.year = lastYear
  · rw [nextYear, hy, Date.make_afterLastYear, onDate]
    simp [eq_comm]
  · obtain ⟨v, hv⟩ := exists_nextYear hy
    simp [hv, hy]

end Wall

end Almanac.Calendar
