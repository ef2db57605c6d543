import Almanac.Proofs.Phrase.Interpretation
import Almanac.Proofs.Phrase.Window

/-!
# Phrases that lead out of the calendar

A phrase that counts days from the reference leads to a day after the last one exactly if the
calendar ends before. Interpreting it then breaks off with the error of the calendar: only an
offset or a date that is out of range is refused. Judging an instant breaks off in the last year,
which has no year after it.
-/

namespace Almanac.Calendar

/-- In how many days clocks show a time of day next. -/
def Wall.daysUntilClock (w : Wall) (k : Clock) : Nat :=
  if w < w.atClock k then 0 else 1

end Almanac.Calendar

namespace Almanac.Phrase

open Calendar Text Shape

variable {row : Row} {r : Reading} {text : List Char} {c : Captures} {now i : Instant}
  {e : CalendarError} {f : Fault}

/-! ### Days ahead -/

/-- The day of the week of a phrase. -/
def Reading.weekday? (r : Reading) : Option Nat :=
  (weekdayOf (String.ofList ((r.get? .weekday).getD []))).toOption

/-- How many days after the reference the day of a phrase comes, if the phrase counts it from the
    reference. A time of day that has passed is that of the next day. -/
def Reading.daysAhead (r : Reading) (now : Instant) : Nat :=
  match r.row with
  | .tomorrow        => 1
  | .tomorrowAtClock => 1
  | .weekday         => r.weekday?.elim 0 fun n => (daysUntil now.wall.weekday n).toNat
  | .weekdayAtClock  => r.weekday?.elim 0 fun n => (daysUntil now.wall.weekday n).toNat
  | .nextWeek        => 7
  | .nextMonth       => now.wall.daysToNextMonth
  | .atClock         => (r.clock none).toOption.elim 0 now.wall.daysUntilClock
  | .thisEvening     => now.wall.daysUntilClock eveningTime
  | .thisMorning     => now.wall.daysUntilClock morningTime
  | .thisAfternoon   => now.wall.daysUntilClock afternoonTime
  | _                => 0

/-- The error with which the day of a phrase is missed. -/
def Row.overrun : Row → CalendarError
  | .nextMonth => .date (.year (lastYear + 1))
  | _          => .overflow

/-! ### Errors of computations -/

theorem bind_eq_error_iff {α β : Type} {x : Except Fault α} {g : α → Except Fault β} :
    x >>= g = .error f ↔ x = .error f ∨ ∃ a, x = .ok a ∧ g a = .error f := by
  cases x with
  | ok a => simp [bind, Except.bind]
  | error e => simp [bind, Except.bind]

@[simp] theorem map_eq_error_iff {α β ε : Type} {x : Except ε α} {g : α → β} {e : ε} :
    x.map g = .error e ↔ x = .error e := by
  cases x <;> simp [Except.map]

@[simp] theorem onCalendar_eq_error_iff {α : Type} {x : Except CalendarError α} :
    onCalendar x = .error (.calendar e) ↔ x = .error e := by
  cases x <;> simp

theorem moved_eq_error_iff {n : Nat} {d : Int} (hd : d = (day * n : Nat)) :
    moved i d = .error (.calendar e) ↔ dayCount ≤ i.wall.dayIndex + n ∧ e = .overflow := by
  rw [moved, onCalendar_eq_error_iff, Instant.shift, map_eq_error_iff, hd,
    Wall.shift_days_eq_error_iff]

theorem moved_day_eq_error_iff :
    moved i day = .error (.calendar e) ↔ dayCount ≤ i.wall.dayIndex + 1 ∧ e = .overflow :=
  moved_eq_error_iff (by rw [Nat.mul_one])

theorem atClock_eq_error_iff {m : Except Fault Instant} {k : Clock} :
    (do
      let next ← m
      .ok (next.atClock k)) = .error f ↔ m = .error f := by
  simp [bind_eq_error_iff]

theorem field_ne_calendar (g : Field) : r.field g ≠ .error (.calendar e) := by
  rw [Reading.field]
  split <;> simp

theorem number_ne_calendar (g : Field) : r.number g ≠ .error (.calendar e) := by
  rw [Reading.number, ne_eq, map_eq_error_iff]
  exact field_ne_calendar g

theorem mapError_refused_ne_calendar {α ε : Type} {x : Except ε α} {g : ε → Refusal} :
    (x.mapError fun a => Fault.refused (g a)) ≠ .error (.calendar e) := by
  cases x <;> simp [Except.mapError]

theorem clock_ne_calendar (otherwise : Option Clock) :
    r.clock otherwise ≠ .error (.calendar e) := by
  intro h
  simp only [Reading.clock, bind_eq_error_iff] at h
  rcases h with h | ⟨a, -, h⟩
  · exact field_ne_calendar _ h
  · cases a with
    | none =>
      cases otherwise with
      | none => cases h
      | some k => cases h
    | some hour =>
      simp only [bind_eq_error_iff] at h
      rcases h with h | ⟨minute, -, h | ⟨meridiem, -, h⟩⟩
      · exact number_ne_calendar _ h
      · exact field_ne_calendar _ h
      · exact mapError_refused_ne_calendar h

theorem atKeptClock_eq_error_iff {m : Except Fault Instant} {otherwise : Option Clock} :
    (do
      let next ← m
      .ok (next.atClock (← r.clock otherwise))) = .error (.calendar e) ↔
        m = .error (.calendar e) := by
  simp [bind_eq_error_iff, clock_ne_calendar]

/-! ### Rules -/

theorem nextClock_eq_error_iff {k : Clock} :
    nextClock now k = .error (.calendar e) ↔
      dayCount ≤ now.wall.dayIndex + now.wall.daysUntilClock k ∧ e = .overflow := by
  have hlt : ¬dayCount ≤ now.wall.dayIndex := Nat.not_le.mpr now.wall.dayIndex_lt
  rw [nextClock, rollForward_eq (Instant.frame_atClock ..), Instant.wall_atClock,
    Wall.daysUntilClock]
  split
  · simp [hlt]
  · rw [moved_day_eq_error_iff, Instant.wall_atClock, Wall.dayIndex_atClock]

theorem nextWeekday_eq_error_iff {n : Int} :
    nextWeekday now n = .error (.calendar e) ↔
      dayCount ≤ now.wall.dayIndex + (daysUntil now.wall.weekday n).toNat ∧ e = .overflow := by
  rw [nextWeekday, map_eq_error_iff, moved_eq_error_iff (day_mul_daysUntil ..)]

theorem weekdayOf_ne_calendar {name : String} : weekdayOf name ≠ .error (.calendar e) := by
  rw [weekdayOf]
  split <;> simp

theorem weekdayOfReading_eq_error_iff (hf : Field.weekday ∈ row.shape.fields) :
    Rule.weekdayOfReading ⟨row, c⟩ now = .error (.calendar e) ↔
      dayCount ≤ now.wall.dayIndex +
        (Reading.weekday? ⟨row, c⟩).elim 0 (fun n => (daysUntil now.wall.weekday n).toNat) ∧
          e = .overflow := by
  have hlt : ¬dayCount ≤ now.wall.dayIndex := Nat.not_le.mpr now.wall.dayIndex_lt
  simp only [Rule.weekdayOfReading, Reading.weekday?, Reading.get?, field_eq hf]
  cases hn : weekdayOf (String.ofList ((c.lookup .weekday).getD [])) with
  | ok n => simp [bind_eq_error_iff, Except.toOption, hn, nextWeekday_eq_error_iff]
  | error f =>
    have hne : f ≠ .calendar e := by
      rintro rfl
      exact weekdayOf_ne_calendar hn
    simp [bind_eq_error_iff, Except.toOption, hn, hne, hlt]

theorem relativeOffsetOf_ne_calendar : Rule.relativeOffsetOf r now ≠ .error (.calendar e) := by
  intro h
  simp only [Rule.relativeOffsetOf, bind_eq_error_iff] at h
  rcases h with h | ⟨unit, -, h | ⟨n, -, h | ⟨ds, -, h⟩⟩⟩
  · exact field_ne_calendar _ h
  · rw [unitOf] at h
    split at h
    · cases h
    · cases h
  · exact field_ne_calendar _ h
  · split at h
    · cases h
    · split at h
      · cases h
      · exact mapError_refused_ne_calendar h

theorem explicitDateOf_ne_calendar : Rule.explicitDateOf r now ≠ .error (.calendar e) := by
  intro h
  simp only [Rule.explicitDateOf, bind_eq_error_iff] at h
  rcases h with h | ⟨k, -, h | ⟨y, -, h | ⟨m, -, h | ⟨d, -, h⟩⟩⟩⟩
  · exact clock_ne_calendar _ h
  · exact number_ne_calendar _ h
  · exact number_ne_calendar _ h
  · exact number_ne_calendar _ h
  · split at h
    · cases h
    · cases h

theorem clockTime_eq_error_iff :
    Rule.clockTime.resolve r now = .error (.calendar e) ↔
      dayCount ≤ now.wall.dayIndex + (r.clock none).toOption.elim 0 now.wall.daysUntilClock ∧
        e = .overflow := by
  have hlt : ¬dayCount ≤ now.wall.dayIndex := Nat.not_le.mpr now.wall.dayIndex_lt
  rw [Rule.resolve, bind_eq_error_iff]
  cases hk : r.clock none with
  | ok k => simp [nextClock_eq_error_iff, Except.toOption]
  | error f =>
    have hne : f ≠ .calendar e := by
      rintro rfl
      exact clock_ne_calendar none hk
    simp [Except.toOption, hne, hlt]

theorem nextMonth_eq_error_iff :
    Rule.nextMonth.resolve r now = .error (.calendar e) ↔
      dayCount ≤ now.wall.dayIndex + now.wall.daysToNextMonth ∧
        e = .date (.year (lastYear + 1)) := by
  rw [Rule.resolve, atClock_eq_error_iff, onCalendar_eq_error_iff, Instant.firstOfNextMonth,
    map_eq_error_iff, Wall.firstOfNextMonth_eq_error_iff]

/-- Where the day of a phrase comes after the last one, and only there, it leads out of the
    calendar. -/
theorem resolve_eq_error_iff (r : Reading) (now : Instant) (e : CalendarError) :
    r.resolve now = .error (.calendar e) ↔
      dayCount ≤ now.wall.dayIndex + r.daysAhead now ∧ e = r.row.overrun := by
  have hlt : ¬dayCount ≤ now.wall.dayIndex := Nat.not_le.mpr now.wall.dayIndex_lt
  have hweek : ((7 * day : Nat) : Int) = (day * 7 : Nat) := by rw [Nat.mul_comm]
  have hstay {m : Except Fault Instant} (hm : m ≠ .error (.calendar e)) :
      m = .error (.calendar e) ↔ dayCount ≤ now.wall.dayIndex ∧ e = .overflow :=
    iff_of_false hm fun h => hlt h.1
  obtain ⟨row, c⟩ := r
  cases row with
  | inMinutes => exact hstay relativeOffsetOf_ne_calendar
  | inHours => exact hstay relativeOffsetOf_ne_calendar
  | inDays => exact hstay relativeOffsetOf_ne_calendar
  | inWeeks => exact hstay relativeOffsetOf_ne_calendar
  | atClock => exact clockTime_eq_error_iff
  | tomorrow => exact atClock_eq_error_iff.trans moved_day_eq_error_iff
  | tomorrowAtClock => exact atKeptClock_eq_error_iff.trans moved_day_eq_error_iff
  | weekday => exact weekdayOfReading_eq_error_iff (by decide)
  | weekdayAtClock =>
    exact atKeptClock_eq_error_iff.trans (weekdayOfReading_eq_error_iff (by decide))
  | slashDate => exact hstay explicitDateOf_ne_calendar
  | isoDate => exact hstay explicitDateOf_ne_calendar
  | now => exact hstay (by simp [Reading.resolve, Row.rule, Rule.resolve])
  | thisEvening => exact nextClock_eq_error_iff
  | thisMorning => exact nextClock_eq_error_iff
  | thisAfternoon => exact nextClock_eq_error_iff
  | nextWeek => exact atClock_eq_error_iff.trans (moved_eq_error_iff hweek)
  | nextMonth => exact nextMonth_eq_error_iff

/-! ### Interpreting and judging -/

theorem interpret_eq_error_iff (h : row.shape.Reads (normalize text) c) :
    interpret Row.all text now = .error (.calendar e) ↔
      Reading.resolve ⟨row, c⟩ now = .error (.calendar e) := by
  cases hr : Reading.resolve ⟨row, c⟩ now with
  | ok i =>
    obtain ⟨words, hw⟩ := interpret_of_resolve hr (later_of_resolve h hr).1
    simp [interpret_of_reads h, hw]
  | error f =>
    rw [interpret_of_reads h, Reading.interpret, hr]
    cases f <;> simp

theorem judge_eq_error_iff (hf : i.frame = now.frame) :
    judge i now = .error e ↔
      now.wall < i.wall ∧ now.wall.date.year = lastYear ∧ e = .date (.year (lastYear + 1)) := by
  rw [judge_eq_judgeAt hf, judgeAt]
  split
  · next hlt => rw [map_eq_error_iff, Wall.nextYear_eq_error_iff, and_iff_right hlt]
  · next hlt => simp [hlt]

/-- Interpreting a phrase breaks off on the calendar exactly if the phrase counts the days to a day
    after the last one: no offset and no date does. Judging what a phrase names breaks off exactly
    in the last year, for an instant after the reference. -/
theorem interpret_calendar_iff (text : List Char) (now : Instant) (e : CalendarError) :
    (interpret Row.all text now = .error (.calendar e) ↔
        ∃ (row : Row) (c : Captures), row.shape.Reads (normalize text) c ∧
          dayCount ≤ now.wall.dayIndex + Reading.daysAhead ⟨row, c⟩ now ∧ e = row.overrun) ∧
      ∀ (category : Category) (i : Instant) (words : String),
        interpret Row.all text now = .ok (.resolved category i words) →
          (judge i now = .error e ↔ now.wall < i.wall ∧ now.wall.date.year = lastYear ∧
            e = .date (.year (lastYear + 1))) := by
  constructor
  · by_cases hr : ∃ (row : Row) (c : Captures), row.shape.Reads (normalize text) c
    · obtain ⟨row, c, h⟩ := hr
      rw [interpret_eq_error_iff h, resolve_eq_error_iff]
      constructor
      · intro hd
        exact ⟨row, c, h, hd⟩
      · rintro ⟨row', c', h', hd⟩
        obtain rfl := Row.eq_of_reads h h'
        obtain rfl := Row.reads_unique h h'
        exact hd
    · obtain ⟨why, hw⟩ := interpret_of_not_reads now fun row c h => hr ⟨row, c, h⟩
      rw [hw]
      constructor
      · intro hf
        cases hf
      · rintro ⟨row, c, h, -⟩
        exact absurd ⟨row, c, h⟩ hr
  · intro category i words h
    exact judge_eq_error_iff (frame_eq_of_interpret h).1

/-- A time of day on the last day of the calendar, on a clock without offset. -/
def lastDay (k : Clock) : Instant :=
  ⟨Wall.on (.ofNumbers 9999 12 31 (by decide)) k.time k.time_lt, .floating, false⟩

/-- There is no day after the last one. -/
theorem interpret_tomorrow_lastDay :
    interpret Row.all "tomorrow".toList (lastDay dayTime) = .error (.calendar .overflow) := by
  decide +kernel

/-- An hour later is still in the calendar, but the limit of a year is not. -/
theorem judge_anHourLater_lastDay :
    ∃ (category : Category) (i : Instant) (words : String),
      interpret Row.all "in 1 hour".toList (lastDay dayTime) =
        .ok (.resolved category i words) ∧
      judge i (lastDay dayTime) = .error (.date (.year 10000)) := by
  have hi : interpret Row.all "in 1 hour".toList (lastDay dayTime) =
      .ok (.resolved .relativeOffset (lastDay ⟨10, 0, by decide, by decide⟩)
        "In 1 hours (10:00 AM)") := by
    decide +kernel
  have hjudge := (interpret_calendar_iff "in 1 hour".toList (lastDay dayTime)
    (.date (.year (lastYear + 1)))).2 _ _ _ hi
  exact ⟨_, _, _, hi, hjudge.mpr ⟨by decide +kernel, by decide +kernel, rfl⟩⟩

end Almanac.Phrase
