import Almanac.Proofs.Calendar.Moving
import Almanac.Proofs.Phrase.Denotation

/-!
# How a reading is resolved

A reading whose names are known is resolved exactly if its numbers denote real values, and refused
otherwise; only in the last year of the calendar there may be no room for the result.
-/

namespace Almanac.Phrase

open Calendar Text Shape

variable {row : Row} {t v : List Char} {c : Captures} {now : Instant}

/-! ### Moving on -/

/-- Why an instant cannot be moved on: there is no room left in the calendar. -/
def IsOverflow (now : Instant) (e : Fault) : Prop :=
  lastYear ≤ now.wall.date.year ∧ ∃ why, e = .calendar why

/-- Whether a computation moves the reference on in its frame, unless there is no room. -/
def Moves (now : Instant) (m : Except Fault Instant) : Prop :=
  (∃ w, m = .ok ⟨w, now.frame, false⟩) ∨ ∃ e, m = .error e ∧ IsOverflow now e

theorem moves_moved {i : Instant} {d : Int} (hf : i.frame = now.frame)
    (hi : i.wall.date = now.wall.date) (h₀ : 0 ≤ d) (h : d ≤ 7 * day) : Moves now (moved i d) := by
  rw [Moves, ← hf]
  cases hw : i.wall.shift d with
  | ok w =>
    left
    exact ⟨w, by simp only [moved, Instant.shift, hw, Except.map, onCalendar_ok]⟩
  | error e =>
    refine .inr ⟨.calendar e, ?_, ?_, e, rfl⟩
    · simp only [moved, Instant.shift, hw, Except.map, onCalendar_error]
    · rw [← hi]
      apply Nat.le_of_not_lt
      intro hy
      obtain ⟨v, hv⟩ := Wall.exists_shift hy h₀ h
      rw [hv] at hw
      cases hw

theorem rollForward_eq {i : Instant} (hf : i.frame = now.frame) :
    rollForward i now = if now.wall < i.wall then .ok i else moved i day := by
  simp only [rollForward, Instant.isAfter_of_frame_eq hf, onCalendar_ok, bind, Except.bind,
    decide_eq_true_eq]

/-- A candidate on the day of the reference is kept, or moves on. -/
theorem rollForward_cases (i now : Instant) (hf : i.frame = now.frame)
    (hi : i.wall.date = now.wall.date) :
    rollForward i now = .ok i ∨ Moves now (rollForward i now) := by
  rw [rollForward_eq hf]
  split
  · exact .inl rfl
  · exact .inr (moves_moved hf hi (Int.natCast_nonneg day) (by decide))

theorem daysUntil_mem (a b : Int) : 1 ≤ daysUntil a b ∧ daysUntil a b ≤ 7 := by
  simp only [daysUntil]
  split
  · exact ⟨by decide, by decide⟩
  · constructor <;> omega

theorem day_mul_daysUntil (a b : Int) :
    (day : Int) * daysUntil a b = (day * (daysUntil a b).toNat : Nat) := by
  rw [Int.natCast_mul, Int.toNat_of_nonneg (Int.le_trans (by decide) (daysUntil_mem a b).1)]

theorem moves_nextWeekday (now : Instant) (weekday : Int) :
    Moves now (nextWeekday now weekday) := by
  obtain ⟨h₁, h₂⟩ := daysUntil_mem now.wall.weekday weekday
  have hd : 0 ≤ (day : Int) * daysUntil now.wall.weekday weekday ∧
      (day : Int) * daysUntil now.wall.weekday weekday ≤ 7 * day := by
    rw [show (day : Int) = 86400000000 from rfl]
    omega
  rw [nextWeekday]
  rcases moves_moved rfl rfl hd.1 hd.2 with ⟨w, hw⟩ | ⟨e, he, ho⟩
  · rw [hw]
    exact .inl ⟨w.atClock dayTime, rfl⟩
  · rw [he]
    exact .inr ⟨e, rfl, ho⟩

theorem moves_firstOfNextMonth (now : Instant) : Moves now (onCalendar now.firstOfNextMonth) := by
  cases hw : now.wall.firstOfNextMonth with
  | ok w =>
    left
    exact ⟨w, by simp only [Instant.firstOfNextMonth, hw, Except.map, onCalendar_ok]⟩
  | error e =>
    refine .inr ⟨.calendar e, ?_, ?_, e, rfl⟩
    · simp only [Instant.firstOfNextMonth, hw, Except.map, onCalendar_error]
    · apply Nat.le_of_not_lt
      intro hy
      obtain ⟨v, hv⟩ := Wall.exists_firstOfNextMonth fun h => Nat.ne_of_lt hy h.1
      rw [hv] at hw
      cases hw

/-! ### Outcomes -/

/-- How the resolution of a reading with known names ends. -/
inductive Outcome (row : Row) (c : Captures) (now : Instant) : Except Fault Instant → Prop
  /-- An instant in the frame of the reference, in the later of two readings only if the reference
      is, and then on the same day. -/
  | resolved {w : Wall} {later : Bool} (h : Denotes row c now)
      (hl : later = true → now.later = true ∧ w.date = now.wall.date) :
      Outcome row c now (.ok ⟨w, now.frame, later⟩)
  | refused {why : Refusal} (h : ¬Denotes row c now) : Outcome row c now (.error (.refused why))
  | overflow {e : Fault} (h : IsOverflow now e) : Outcome row c now (.error e)

variable {m : Except Fault Instant}

theorem Moves.outcome (hm : Moves now m) (hd : Denotes row c now) : Outcome row c now m := by
  obtain ⟨w, rfl⟩ | ⟨e, rfl, he⟩ := hm
  · apply Outcome.resolved hd
    intro hl
    cases hl
  · exact .overflow he

/-- A day at a given time of day. -/
theorem Moves.outcome_atClock (hm : Moves now m) (hd : Denotes row c now) (k : Clock) :
    Outcome row c now (do
      let next ← m
      .ok (next.atClock k)) := by
  obtain ⟨w, rfl⟩ | ⟨e, rfl, he⟩ := hm
  · apply Outcome.resolved hd
    intro hl
    cases hl
  · exact .overflow he

/-- The next moment of a time of day is an outcome of numbers that denote real values. -/
theorem outcome_nextClock (hd : Denotes row c now) (k : Clock) :
    Outcome row c now (nextClock now k) := by
  rw [nextClock]
  rcases rollForward_cases (now.atClock k) now rfl (Wall.date_atClock now.wall k) with
    h | h
  · rw [h]
    exact .resolved hd fun hl => ⟨hl, Wall.date_atClock now.wall k⟩
  · exact h.outcome hd

/-- A day at the time of day of the phrase. -/
theorem Moves.outcome_atKeptClock (hm : Moves now m) (h : row.shape.Reads t c)
    (hr : row.shape.requires .hour = true) :
    Outcome row c now (do
      let next ← m
      .ok (next.atClock (← Reading.clock ⟨row, c⟩ none))) := by
  obtain ⟨w, rfl⟩ | ⟨e, rfl, he⟩ := hm
  · rcases clock_cases none h (Row.of_requires_hour hr).1 (.inl hr) with
      ⟨hc, k, hk⟩ | ⟨hc, why, hwhy⟩
    · rw [hk]
      apply Outcome.resolved (.of_hasRealClock h hr hc)
      intro hl
      cases hl
    · rw [hwhy]
      apply Outcome.refused
      intro hd
      exact hc hd.clock
  · exact .overflow he

/-! ### Rules -/

theorem outcome_clockTime (h : row.shape.Reads t c) (hr : row.shape.requires .hour = true) :
    Outcome row c now (Rule.clockTime.resolve ⟨row, c⟩ now) := by
  show Outcome row c now (do nextClock now (← Reading.clock ⟨row, c⟩ none))
  rcases clock_cases none h (Row.of_requires_hour hr).1 (.inl hr) with
    ⟨hc, k, hk⟩ | ⟨hc, why, hwhy⟩
  · rw [hk]
    exact outcome_nextClock (.of_hasRealClock h hr hc) k
  · rw [hwhy]
    apply Outcome.refused
    intro hd
    exact hc hd.clock

theorem relativeOffsetOf_eq {n : Nat} (hunit : Field.unit ∈ row.shape.fields)
    (hamount : Field.amount ∈ row.shape.fields) (hv : c.lookup .unit = some v)
    (hn : unitOf (String.ofList v) = .ok n) :
    Rule.relativeOffsetOf ⟨row, c⟩ now =
      if maxDigits < ((c.lookup .amount).getD []).length then
        .error (.refused (.amountTooLong ((c.lookup .amount).getD []).length))
      else if numberAt c .amount = 0 then
        .error (.refused (.notPositive (numberAt c .amount) (String.ofList v)))
      else (now.shift (n * numberAt c .amount)).mapError fun _ =>
        .refused (.tooLarge (numberAt c .amount) (String.ofList v)) := by
  simp only [Rule.relativeOffsetOf, field_eq hunit, field_eq hamount, hv, hn, Option.getD_some,
    readDigits, numberAt, bind, Except.bind]
  by_cases hlong : maxDigits < ((c.lookup .amount).getD []).length
  · simp only [if_pos hlong]
  · simp only [if_neg hlong]
    rfl

theorem outcome_relativeOffset (h : row.shape.Reads (normalize t) c) (hs : ¬HasStrayName c)
    (hr : row.shape.requires .unit = true) :
    Outcome row c now (Rule.relativeOffset.resolve ⟨row, c⟩ now) := by
  obtain ⟨v, hv⟩ := h.exists_lookup hr
  obtain ⟨n, hn, hname⟩ := exists_unitOf h hv hs
  rw [Rule.resolve,
    relativeOffsetOf_eq (mem_fields_of_requires hr) (Row.of_requires_unit hr).1 hv hname]
  split
  · next hlong =>
    apply Outcome.refused
    intro hd
    exact Nat.not_le.mpr hlong (hd.offset n hn).1
  · next hshort =>
    split
    · next hzero =>
      apply Outcome.refused
      intro hd
      exact Nat.ne_of_gt (hd.offset n hn).2.1 hzero
    · next hpos =>
      have hsum (w : Wall) : now.wall.shift (n * numberAt c .amount) = .ok w ↔
          w.ticks = now.wall.ticks + n * numberAt c .amount := by
        rw [Wall.shift_eq_ok_iff]
        omega
      rw [Instant.shift]
      cases hw : now.wall.shift (n * numberAt c .amount) with
      | ok w =>
        have hoff : HasRealOffset row c now := by
          intro u hu
          obtain rfl : n = u := Option.some.inj (hn.symm.trans hu)
          exact ⟨Nat.le_of_not_lt hshort, Nat.pos_of_ne_zero hpos, w, (hsum w).mp hw⟩
        apply Outcome.resolved (.of_hasRealOffset h hr hoff)
        intro hl
        cases hl
      | error e =>
        apply Outcome.refused
        intro hd
        obtain ⟨-, -, w, hw'⟩ := hd.offset n hn
        rw [(hsum w).mpr hw'] at hw
        cases hw

theorem weekdayOfReading_eq {n : Nat} (hfield : Field.weekday ∈ row.shape.fields)
    (hv : c.lookup .weekday = some v) (hn : weekdayOf (String.ofList v) = .ok n) :
    Rule.weekdayOfReading ⟨row, c⟩ now = nextWeekday now n := by
  simp only [Rule.weekdayOfReading, field_eq hfield, hv, hn, Option.getD_some, bind, Except.bind]

/-- The day of the week of a phrase is found, if its name is known. -/
theorem moves_weekdayOfReading (h : row.shape.Reads (normalize t) c) (hs : ¬HasStrayName c)
    (hr : row.shape.requires .weekday = true) :
    Moves now (Rule.weekdayOfReading ⟨row, c⟩ now) := by
  obtain ⟨v, hv⟩ := h.exists_lookup hr
  obtain ⟨n, hn, -⟩ := exists_weekdayOf h hv hs
  rw [weekdayOfReading_eq (mem_fields_of_requires hr) hv hn]
  exact moves_nextWeekday now n

/-- Where a year is needed, the date of a phrase is real exactly if there is one of its numbers. -/
theorem hasRealDate_iff (h : row.shape.Reads t c) (hr : row.shape.requires .year = true) :
    HasRealDate c ↔
      ∃ d, Date.make (numberAt c .year) (numberAt c .month) (numberAt c .day) = .ok d := by
  obtain ⟨v, hv⟩ := h.exists_lookup hr
  have hnum : numberAt c .year = digitsValue v := by rw [numberAt, hv, Option.getD_some]
  rw [Date.exists_make_iff, hnum, HasRealDate, hv]
  constructor
  · intro hc
    exact hc v rfl
  · intro hc w hw
    obtain rfl := Option.some.inj hw
    exact hc

theorem outcome_explicitDate (h : row.shape.Reads t c) (hr : row.shape.requires .year = true) :
    Outcome row c now (Rule.explicitDate.resolve ⟨row, c⟩ now) := by
  obtain ⟨hrow, hmonth, hday, hunit⟩ := Row.of_requires_year hr
  simp only [Rule.resolve, Rule.explicitDateOf, number_eq (mem_fields_of_requires hr),
    number_eq hmonth, number_eq hday]
  rcases clock_cases (some dayTime) h hrow (.inr rfl) with ⟨hc, k, hk⟩ | ⟨hc, why, hwhy⟩
  · rw [hk]
    cases hmake : Date.make (numberAt c .year) (numberAt c .month) (numberAt c .day) with
    | ok d =>
      have hd : Denotes row c now :=
        ⟨hc, (hasRealDate_iff h hr).mpr ⟨d, hmake⟩, hasRealOffset_of_unit? hunit⟩
      simp only [hmake, bind, Except.bind]
      apply Outcome.resolved hd
      intro hl
      cases hl
    | error e =>
      simp only [hmake, bind, Except.bind]
      apply Outcome.refused
      intro hd
      obtain ⟨d, hd⟩ := (hasRealDate_iff h hr).mp hd.date
      rw [hd] at hmake
      cases hmake
  · rw [hwhy]
    apply Outcome.refused
    intro hd
    exact hc hd.clock

/-- A reading with known names is resolved exactly if its numbers denote real values, and refused
    otherwise, unless there is no room left in the calendar. -/
theorem outcome_resolve (now : Instant) (h : row.shape.Reads (normalize t) c)
    (hs : ¬HasStrayName c) : Outcome row c now (Reading.resolve ⟨row, c⟩ now) := by
  have hweek : (0 : Int) ≤ (7 * day : Nat) ∧ ((7 * day : Nat) : Int) ≤ 7 * day := by decide
  have hday : (0 : Int) ≤ day ∧ (day : Int) ≤ 7 * day := by decide
  have hplain (hr : row.IsUnnumbered) : Denotes row c now := .of_isUnnumbered h hr
  cases row with
  | inMinutes => exact outcome_relativeOffset h hs rfl
  | inHours => exact outcome_relativeOffset h hs rfl
  | inDays => exact outcome_relativeOffset h hs rfl
  | inWeeks => exact outcome_relativeOffset h hs rfl
  | atClock => exact outcome_clockTime h rfl
  | tomorrow =>
    exact (moves_moved rfl rfl hday.1 hday.2).outcome_atClock (hplain (by decide)) dayTime
  | tomorrowAtClock => exact (moves_moved rfl rfl hday.1 hday.2).outcome_atKeptClock h rfl
  | weekday => exact (moves_weekdayOfReading h hs rfl).outcome (hplain (by decide))
  | weekdayAtClock => exact (moves_weekdayOfReading h hs rfl).outcome_atKeptClock h rfl
  | slashDate => exact outcome_explicitDate h rfl
  | isoDate => exact outcome_explicitDate h rfl
  | now => exact .resolved (hplain (by decide)) fun hl => ⟨hl, rfl⟩
  | thisEvening => exact outcome_nextClock (hplain (by decide)) eveningTime
  | thisMorning => exact outcome_nextClock (hplain (by decide)) morningTime
  | thisAfternoon => exact outcome_nextClock (hplain (by decide)) afternoonTime
  | nextWeek =>
    exact (moves_moved rfl rfl hweek.1 hweek.2).outcome_atClock (hplain (by decide)) dayTime
  | nextMonth => exact (moves_firstOfNextMonth now).outcome_atClock (hplain (by decide)) dayTime

end Almanac.Phrase
