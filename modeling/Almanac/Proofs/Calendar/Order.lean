import Almanac.Proofs.Calendar.Moving

/-!
# The order of dates

The day count orders dates by year, then month, then day. The first day of the next month does not
come earlier for a later date, and neither does the same date a year later; only a leap day and the
day before it come to the same date there. A year is 365 days or more.
-/

namespace Almanac.Calendar

/-! ### Months -/

/-- A month begins where the one before it ends; after the last one the year is over. -/
theorem daysBeforeMonth_succ (year : Nat) {month : Nat} (hm : 1 ≤ month) (hm' : month ≤ 12) :
    daysBeforeMonth year (month + 1) = daysBeforeMonth year month + daysInMonth year month := by
  have hall : ∀ leap : Bool, ∀ m < 12,
      total ([31, if leap then 29 else 28, 31, 30, 31, 30, 31, 31, 30, 31, 30, 31].take (m + 1)) =
        total ([31, if leap then 29 else 28, 31, 30, 31, 30, 31, 31, 30, 31, 30, 31].take m) +
          [31, if leap then 29 else 28, 31, 30, 31, 30, 31, 31, 30, 31, 30, 31].getD m 0 := by
    decide
  have h := hall (isLeap year) (month - 1) (by omega)
  rw [Nat.sub_add_cancel hm] at h
  exact h

theorem daysBeforeMonth_add_le_of_lt (year : Nat) {m n : Nat} (hm : 1 ≤ m) (h : m < n)
    (hn : n ≤ 12) : daysBeforeMonth year m + daysInMonth year m ≤ daysBeforeMonth year n := by
  induction h with
  | refl => exact Nat.le_of_eq (daysBeforeMonth_succ year hm (Nat.le_of_succ_le hn)).symm
  | @step n hle ih =>
    have hn' : n ≤ 12 := Nat.le_of_succ_le hn
    have hpos : 1 ≤ n := Nat.le_trans (Nat.succ_pos m) hle
    calc daysBeforeMonth year m + daysInMonth year m ≤ daysBeforeMonth year n := ih hn'
      _ ≤ daysBeforeMonth year n + daysInMonth year n := Nat.le_add_right ..
      _ = daysBeforeMonth year (n + 1) := (daysBeforeMonth_succ year hpos hn').symm

/-! ### Dates -/

/-- Whether a date comes before another, by its year, then its month, then its day. -/
def Date.Before (d e : Date) : Prop :=
  d.year < e.year ∨ d.year = e.year ∧ (d.month < e.month ∨ d.month = e.month ∧ d.day < e.day)

namespace Date

variable {d e : Date}

theorem ext (hy : d.year = e.year) (hm : d.month = e.month) (hd : d.day = e.day) : d = e := by
  cases d
  cases e
  simp_all

theorem before_or_eq_or_before (d e : Date) : d.Before e ∨ d = e ∨ e.Before d := by
  rcases Nat.lt_trichotomy d.year e.year with hy | hy | hy
  · exact .inl (.inl hy)
  · rcases Nat.lt_trichotomy d.month e.month with hm | hm | hm
    · exact .inl (.inr ⟨hy, .inl hm⟩)
    · rcases Nat.lt_trichotomy d.day e.day with hd | hd | hd
      · exact .inl (.inr ⟨hy, .inr ⟨hm, hd⟩⟩)
      · exact .inr (.inl (ext hy hm hd))
      · exact .inr (.inr (.inr ⟨hy.symm, .inr ⟨hm.symm, hd⟩⟩))
    · exact .inr (.inr (.inr ⟨hy.symm, .inl hm⟩))
  · exact .inr (.inr (.inl hy))

theorem daysBeforeYear_le_index (d : Date) : daysBeforeYear d.year ≤ d.index := by
  rw [index]
  omega

theorem Before.index_lt (h : d.Before e) : d.index < e.index := by
  have hd := d.day_le
  have hd' := d.day_pos
  rcases h with hy | ⟨hy, hm | ⟨hm, hlt⟩⟩
  · have h₁ := d.index_lt_daysBeforeYear
    have h₂ : daysBeforeYear (d.year + 1) ≤ daysBeforeYear e.year := daysBeforeYear_mono hy
    have h₃ := e.daysBeforeYear_le_index
    omega
  · have h₁ := daysBeforeMonth_add_le_of_lt d.year d.month_pos hm e.month_le
    simp only [index, ← hy]
    omega
  · simp only [index, ← hy, ← hm]
    omega

/-- The day count tells dates apart. -/
theorem eq_of_index_eq (h : d.index = e.index) : d = e := by
  rcases before_or_eq_or_before d e with hlt | heq | hlt
  · have := hlt.index_lt
    omega
  · exact heq
  · have := hlt.index_lt
    omega

theorem index_lt_index_iff : d.index < e.index ↔ d.Before e := by
  constructor
  · intro h
    rcases before_or_eq_or_before d e with hlt | heq | hlt
    · exact hlt
    · rw [heq] at h
      exact absurd h (Nat.lt_irrefl _)
    · exact absurd hlt.index_lt (Nat.lt_asymm h)
  · exact Before.index_lt

end Date

/-! ### Times -/

namespace Wall

variable {v w x y : Wall}

@[simp] theorem date_on (d : Date) (t : Nat) (h : t < day) : (on d t h).date = d :=
  Date.eq_of_index_eq (by rw [index_date, dayIndex_on])

@[simp] theorem time_atClock (w : Wall) (c : Clock) : (w.atClock c).time = c.time := by
  rw [atClock, time_on]

/-- Times are ordered by their days, and on one day by the time of day. -/
theorem lt_iff : v < w ↔ v.dayIndex < w.dayIndex ∨ v.dayIndex = w.dayIndex ∧ v.time < w.time := by
  have hv := v.ticks_eq
  have hw := w.ticks_eq
  have hv' := v.time_lt
  have hw' := w.time_lt
  rw [lt_def]
  rw [show day = 86400000000 from rfl] at *
  omega

theorem le_iff : v ≤ w ↔ v.dayIndex < w.dayIndex ∨ v.dayIndex = w.dayIndex ∧ v.time ≤ w.time := by
  have hv := v.ticks_eq
  have hw := w.ticks_eq
  have hv' := v.time_lt
  have hw' := w.time_lt
  rw [le_def]
  rw [show day = 86400000000 from rfl] at *
  omega

theorem not_le_iff : ¬v ≤ w ↔ w < v :=
  Nat.not_le

theorem dayIndex_le_of_le (h : v ≤ w) : v.dayIndex ≤ w.dayIndex := by
  rw [le_iff] at h
  omega

theorem dayIndex_lt_iff : v.dayIndex < w.dayIndex ↔ v.date.Before w.date := by
  rw [← index_date, ← index_date, Date.index_lt_index_iff]

theorem date_eq_of_dayIndex_eq (h : v.dayIndex = w.dayIndex) : v.date = w.date :=
  Date.eq_of_index_eq (by rw [index_date, index_date, h])

theorem year_le_of_le (h : v ≤ w) : v.date.year ≤ w.date.year := by
  rcases le_iff.mp h with hlt | ⟨heq, -⟩
  · rcases dayIndex_lt_iff.mp hlt with hy | ⟨hy, -⟩
    · exact Nat.le_of_lt hy
    · exact Nat.le_of_eq hy
  · exact Nat.le_of_eq (congrArg Date.year (date_eq_of_dayIndex_eq heq))

/-- A time between two times of one date is on that date. -/
theorem date_eq_of_le_of_le (h : v ≤ w) (h' : w ≤ x) (hd : v.date = x.date) : w.date = v.date := by
  have h₁ := dayIndex_le_of_le h
  have h₂ := dayIndex_le_of_le h'
  have h₃ : v.dayIndex = x.dayIndex := by rw [← index_date, hd, index_date]
  exact date_eq_of_dayIndex_eq (by omega)

/-! ### The next month -/

theorem onDate_eq_ok_iff {d : Except DateError Date} :
    w.onDate d = .ok v ↔ ∃ e, d = .ok e ∧ v = on e w.time w.time_lt := by
  cases d with
  | ok e => simp [onDate, eq_comm]
  | error e => simp [onDate]

theorem dayIndex_of_firstOfNextMonth (h : w.firstOfNextMonth = .ok v) :
    v.dayIndex = w.dayIndex + w.daysToNextMonth := by
  obtain ⟨e, he, rfl⟩ := onDate_eq_ok_iff.mp h
  rw [dayIndex_on, dayIndex_add_daysToNextMonth,
    ← daysBeforeMonth_succ _ w.date.month_pos w.date.month_le, Date.index]
  split at he
  · next hlast =>
    obtain ⟨hy, hm, hd⟩ := Date.make_eq_ok_iff.mp he
    have htotal : daysBeforeMonth w.date.year (12 + 1) = daysInYear w.date.year :=
      total_monthLengths w.date.year
    rw [hy, hm, hd, hlast, htotal, daysBeforeYear_succ w.date.year_pos]
    rfl
  · obtain ⟨hy, hm, hd⟩ := Date.make_eq_ok_iff.mp he
    rw [hy, hm, hd, Nat.sub_self, Nat.add_zero]

/-- The first day of the next month is not earlier for a later date. -/
theorem dayIndex_add_daysToNextMonth_mono (h : v.dayIndex ≤ w.dayIndex) :
    v.dayIndex + v.daysToNextMonth ≤ w.dayIndex + w.daysToNextMonth := by
  have hyear := daysBeforeYear_succ v.date.year_pos
  have hv := daysBeforeMonth_add_le v.date.year v.date.month_pos v.date.month_le
  rw [dayIndex_add_daysToNextMonth, dayIndex_add_daysToNextMonth]
  rcases Nat.lt_or_eq_of_le h with hlt | heq
  · rcases dayIndex_lt_iff.mp hlt with hy | ⟨hy, hm | ⟨hm, -⟩⟩
    · have hle : daysBeforeYear (v.date.year + 1) ≤ daysBeforeYear w.date.year :=
        daysBeforeYear_mono hy
      omega
    · have hle := daysBeforeMonth_add_le_of_lt v.date.year v.date.month_pos hm w.date.month_le
      rw [← hy]
      omega
    · exact Nat.le_of_eq (by rw [hy, hm])
  · exact Nat.le_of_eq (by rw [date_eq_of_dayIndex_eq heq])

end Wall

/-! ### The next year -/

theorem isLeap_succ {year : Nat} (h : isLeap year = true) : isLeap (year + 1) = false := by
  simp only [isLeap, Bool.and_eq_true, beq_iff_eq, Bool.and_eq_false_iff, beq_eq_false_iff_ne] at h ⊢
  omega

/-- Only February has another length in another year. -/
theorem daysInMonth_eq_of_ne_two (y z : Nat) {month : Nat} (hm : 1 ≤ month) (hm' : month ≤ 12)
    (hne : month ≠ 2) : daysInMonth y month = daysInMonth z month := by
  have hall : ∀ a b : Bool, ∀ m < 12, m ≠ 1 →
      [31, if a then 29 else 28, 31, 30, 31, 30, 31, 31, 30, 31, 30, 31].getD m 0 =
        [31, if b then 29 else 28, 31, 30, 31, 30, 31, 31, 30, 31, 30, 31].getD m 0 := by
    decide
  exact hall (isLeap y) (isLeap z) (month - 1) (by omega) (by omega)

/-- Only the months after February begin a day later in a leap year. -/
theorem daysBeforeMonth_eq (year : Nat) {month : Nat} (hm : 1 ≤ month) (hm' : month ≤ 12) :
    daysBeforeMonth year month =
      daysBeforeMonth 1 month + if isLeap year = true ∧ 2 < month then 1 else 0 := by
  have hall : ∀ leap : Bool, ∀ m < 12,
      total ([31, if leap then 29 else 28, 31, 30, 31, 30, 31, 31, 30, 31, 30, 31].take m) =
        total ([31, 28, 31, 30, 31, 30, 31, 31, 30, 31, 30, 31].take m) +
          if leap = true ∧ 2 < m + 1 then 1 else 0 := by
    decide
  have h := hall (isLeap year) (month - 1) (by omega)
  rw [Nat.sub_add_cancel hm] at h
  exact h

theorem daysInMonth_two (year : Nat) : daysInMonth year 2 = if isLeap year then 29 else 28 :=
  rfl

namespace Date

variable {d e f g : Date}

/-- Whether a date is the one that only leap years have. -/
def IsLeapDay (d : Date) : Prop :=
  d.month = 2 ∧ d.day = 29

instance (d : Date) : Decidable d.IsLeapDay := inferInstanceAs (Decidable (_ ∧ _))

theorem IsLeapDay.isLeap (h : d.IsLeapDay) : isLeap d.year = true := by
  have hle := d.day_le
  rw [h.1, h.2, daysInMonth_two] at hle
  cases hl : Calendar.isLeap d.year with
  | true => rfl
  | false =>
    rw [hl] at hle
    exact absurd hle (by decide)

/-- Only for a leap day is the same month of the next year too short. -/
theorem min_daysInMonth_succ (d : Date) :
    min d.day (daysInMonth (d.year + 1) d.month) = if d.IsLeapDay then 28 else d.day := by
  have hle := d.day_le
  by_cases hl : d.IsLeapDay
  · rw [if_pos hl, hl.1, hl.2, daysInMonth_two, isLeap_succ hl.isLeap]
    rfl
  · rw [if_neg hl]
    apply Nat.min_eq_left
    by_cases hm : d.month = 2
    · have hday : d.day ≠ 29 := fun h => hl ⟨hm, h⟩
      rw [hm, daysInMonth_two] at hle ⊢
      split at hle
      · split <;> omega
      · split <;> omega
    · rwa [daysInMonth_eq_of_ne_two (d.year + 1) d.year d.month_pos d.month_le hm]

/-- Whether a date is another one a year later. A leap day is followed by the last day of its month. -/
structure ComesAgain (d f : Date) : Prop where
  year  : f.year = d.year + 1
  month : f.month = d.month
  day   : f.day = if d.IsLeapDay then 28 else d.day

instance (d f : Date) : Decidable (d.ComesAgain f) :=
  decidable_of_iff (f.year = d.year + 1 ∧ f.month = d.month ∧
      f.day = if d.IsLeapDay then 28 else d.day)
    ⟨fun h => ⟨h.1, h.2.1, h.2.2⟩, fun h => ⟨h.year, h.month, h.day⟩⟩

/-- Whether a date is the day before a leap day. -/
def IsEveOf (d e : Date) : Prop :=
  e.IsLeapDay ∧ d.year = e.year ∧ d.month = 2 ∧ d.day = 28

instance (d e : Date) : Decidable (d.IsEveOf e) := inferInstanceAs (Decidable (_ ∧ _))

theorem ComesAgain.day_le (hf : d.ComesAgain f) : f.day ≤ d.day := by
  rw [hf.day]
  split
  · next hl => exact Nat.le_of_lt (by rw [hl.2]; decide)
  · exact Nat.le_refl _

theorem ComesAgain.unique (hf : d.ComesAgain f) (hg : d.ComesAgain g) : f = g :=
  ext (hf.year.trans hg.year.symm) (hf.month.trans hg.month.symm) (hf.day.trans hg.day.symm)

theorem not_isEveOf_self (d : Date) : ¬d.IsEveOf d := by
  rintro ⟨hl, -, -, hd⟩
  rw [IsLeapDay, hd] at hl
  exact absurd hl.2 (by decide)

/-- A leap day and the day before it come again on the same day. -/
theorem ComesAgain.eq_of_isEveOf (hf : d.ComesAgain f) (hg : e.ComesAgain g) (h : d.IsEveOf e) :
    f = g := by
  obtain ⟨hl, hy, hm, hd⟩ := h
  have hn : ¬d.IsLeapDay := fun h => by
    rw [IsLeapDay, hd] at h
    exact absurd h.2 (by decide)
  apply ext
  · rw [hf.year, hg.year, hy]
  · rw [hf.month, hg.month, hm, hl.1]
  · rw [hf.day, hg.day, if_neg hn, if_pos hl, hd]

/-- Other dates come again in their order. -/
theorem ComesAgain.before (hf : d.ComesAgain f) (hg : e.ComesAgain g) (h : d.Before e)
    (hn : ¬d.IsEveOf e) : f.Before g := by
  rcases h with hy | ⟨hy, hm | ⟨hm, hd⟩⟩
  · exact .inl (by rw [hf.year, hg.year]; exact Nat.succ_lt_succ hy)
  · exact .inr ⟨by rw [hf.year, hg.year, hy], .inl (by rw [hf.month, hg.month]; exact hm)⟩
  · refine .inr ⟨by rw [hf.year, hg.year, hy], .inr ⟨by rw [hf.month, hg.month, hm], ?_⟩⟩
    have hle := hf.day_le
    rw [hg.day]
    split
    · next hl =>
      have hne : d.day ≠ 28 := fun h28 => hn ⟨hl, hy, hm.trans hl.1, h28⟩
      have := hl.2
      omega
    · omega

/-- Up to the date on which a date comes again, no day of a month comes twice after it. -/
theorem ComesAgain.eq_of_within {u v : Date} (hf : d.ComesAgain f) (hu : d.Before u)
    (hu' : ¬f.Before u) (hv : d.Before v) (hv' : ¬f.Before v) (hm : u.month = v.month)
    (hd : u.day = v.day) : u = v := by
  have hyear := hf.year
  have hmonth := hf.month
  have hday := hf.day_le
  simp only [Before] at hu hu' hv hv'
  exact ext (by omega) hm hd

/-- Whether a leap day is passed from a date to the one on which it comes again. -/
def PassesLeapDay (d : Date) : Prop :=
  d.month ≤ 2 ∧ Calendar.isLeap d.year = true ∧ ¬d.IsLeapDay ∨
    2 < d.month ∧ Calendar.isLeap (d.year + 1) = true

instance (d : Date) : Decidable d.PassesLeapDay := inferInstanceAs (Decidable (_ ∨ _))

theorem IsLeapDay.not_passesLeapDay (h : d.IsLeapDay) : ¬d.PassesLeapDay := by
  rintro (⟨-, -, hn⟩ | ⟨hm, -⟩)
  · exact hn h
  · exact absurd h.1 (Nat.ne_of_gt hm)

/-- A date comes again after 366 days if a leap day is passed, and after 365 days if not. -/
theorem ComesAgain.index_eq (hf : d.ComesAgain f) :
    f.index = d.index + if d.PassesLeapDay then 366 else 365 := by
  have h₁ := daysBeforeMonth_eq d.year d.month_pos d.month_le
  have h₂ := daysBeforeMonth_eq (d.year + 1) d.month_pos d.month_le
  have hday := d.day_pos
  simp only [index, hf.year, hf.month, hf.day, daysBeforeYear_succ d.year_pos, h₁, h₂]
  by_cases hl : d.IsLeapDay
  · have hy : daysInYear d.year = 366 := by rw [daysInYear, if_pos hl.isLeap]
    obtain ⟨hm, hd⟩ := id hl
    rw [if_pos hl, if_neg hl.not_passesLeapDay, hy, hm, hd]
    simp only [Nat.lt_irrefl, and_false, if_false]
    omega
  · rw [if_neg hl, daysInYear]
    -- before March only this year's leap day is passed, from March on only the next year's
    rcases Nat.lt_or_ge 2 d.month with hm | hm
    · simp only [PassesLeapDay, hm, Nat.not_le.mpr hm, and_true, true_and, false_and, false_or]
      split <;> split <;> omega
    · simp only [PassesLeapDay, hm, Nat.not_lt.mpr hm, hl, and_true, true_and, and_false, false_and,
        or_false, if_false, not_false_eq_true]
      split <;> omega

/-- A date comes again after 365 days or more. -/
theorem ComesAgain.index_add_le (hf : d.ComesAgain f) : d.index + 365 ≤ f.index := by
  rw [hf.index_eq]
  split <;> omega

end Date

namespace Wall

variable {v w x y : Wall}

theorem exists_nextYear_of_year_le (h : w.date.year ≤ 9998) : ∃ x, w.nextYear = .ok x :=
  exists_nextYear (Nat.ne_of_lt (Nat.lt_succ_of_le h))

theorem comesAgain_of_nextYear (h : w.nextYear = .ok v) :
    w.date.ComesAgain v.date ∧ v.time = w.time := by
  obtain ⟨e, he, rfl⟩ := onDate_eq_ok_iff.mp h
  rw [Date.min_daysInMonth_succ] at he
  obtain ⟨hy, hm, hd⟩ := Date.make_eq_ok_iff.mp he
  rw [date_on, time_on]
  exact ⟨⟨hy, hm, hd⟩, rfl⟩

theorem le_iff_of_date_eq (h : v.date = w.date) : v ≤ w ↔ v.time ≤ w.time := by
  have hd : v.dayIndex = w.dayIndex := by rw [← index_date, h, index_date]
  rw [le_iff, hd]
  simp

/-- A year later, times are in the same order, save that those of a leap day and of the day before it
    are then on one day, in the order of their times of day. -/
theorem le_of_nextYear_iff (hle : v ≤ w) (hx : v.nextYear = .ok x) (hy : w.nextYear = .ok y) :
    x ≤ y ↔ ¬(v.date.IsEveOf w.date ∧ w.time < v.time) := by
  obtain ⟨hvx, htx⟩ := comesAgain_of_nextYear hx
  obtain ⟨hwy, hty⟩ := comesAgain_of_nextYear hy
  rcases le_iff.mp hle with hlt | ⟨heq, htime⟩
  · by_cases heve : v.date.IsEveOf w.date
    · rw [le_iff_of_date_eq (hvx.eq_of_isEveOf hwy heve), htx, hty]
      simp [heve]
    · have hbefore := hvx.before hwy (dayIndex_lt_iff.mp hlt) heve
      exact iff_of_true (le_iff.mpr (.inl (dayIndex_lt_iff.mpr hbefore))) fun h => heve h.1
  · have hdate := date_eq_of_dayIndex_eq heq
    rw [hdate] at hvx
    rw [le_iff_of_date_eq (hvx.unique hwy), htx, hty, hdate]
    exact iff_of_true htime fun h => w.date.not_isEveOf_self h.1

/-- Times come again in their order, if neither is on the day before a leap day that the other is on. -/
theorem lt_of_nextYear (hlt : v < w) (hx : v.nextYear = .ok x) (hy : w.nextYear = .ok y)
    (hn : ¬v.date.IsEveOf w.date) : x < y := by
  obtain ⟨hdx, htx⟩ := comesAgain_of_nextYear hx
  obtain ⟨hdy, hty⟩ := comesAgain_of_nextYear hy
  rw [lt_iff] at hlt ⊢
  rcases hlt with hday | ⟨hday, htime⟩
  · exact .inl (dayIndex_lt_iff.mpr (hdx.before hdy (dayIndex_lt_iff.mp hday) hn))
  · have hdate := date_eq_of_dayIndex_eq hday
    rw [hdate] at hdx
    refine .inr ⟨?_, by rwa [htx, hty]⟩
    rw [← index_date, ← index_date, hdx.unique hdy]

theorem le_nextYear_iff (hx : v.nextYear = .ok x) (hy : w.nextYear = .ok y)
    (hn : ¬v.date.IsEveOf w.date) (hn' : ¬w.date.IsEveOf v.date) : x ≤ y ↔ v ≤ w := by
  constructor
  · intro hle
    apply Nat.le_of_not_lt
    intro hlt
    exact not_le_iff.mpr (lt_of_nextYear hlt hy hx hn') hle
  · intro hle
    exact (le_of_nextYear_iff hle hx hy).mpr fun h => hn h.1

end Wall

end Almanac.Calendar
