import Almanac.Calendar.Instant
import Almanac.Phrase.Fault
import Almanac.Text.LowerCase

/-!
# Rules for finding the time of a phrase

A rule turns the kept parts of a phrase and a reference instant into the instant that the phrase
names. All of it happens on the wall clock and in the frame of the reference. A time of day that
has passed is taken on the next day; a date that has passed is taken as it stands.
-/

namespace Almanac.Phrase

open Calendar Text

/-! ### Times of day -/

/-- The time of day for phrases that name only a day. -/
def dayTime : Clock := ⟨9, 0, by decide, by decide⟩

/-- The time of day of a morning. -/
def morningTime : Clock := ⟨8, 0, by decide, by decide⟩

/-- The time of day of an afternoon. -/
def afternoonTime : Clock := ⟨14, 0, by decide, by decide⟩

/-- The time of day of an evening. -/
def eveningTime : Clock := ⟨19, 0, by decide, by decide⟩

/-- An hour from 1 to 12 in a half of the day: twelve comes first. An hour in neither half is
    kept. -/
def halfDayHour (meridiem : String) (hour : Nat) : Nat :=
  if meridiem = "pm" ∧ hour ≠ 12 then hour + 12
  else if meridiem = "am" ∧ hour = 12 then 0
  else hour

theorem halfDayHour_lt {meridiem : String} {hour : Nat} (h : hour ≤ 12) (h' : 1 ≤ hour) :
    halfDayHour meridiem hour < 24 := by
  simp only [halfDayHour]
  split
  · omega
  · split <;> omega

/-- The time of day that an hour and a minute name: with a half of the day the hour counts from 1
    to 12, without one from 0 to 23. The minute is looked at first. -/
def readClock (hour minute : Int) (meridiem : Option String) : Except Refusal Clock :=
  if hm : minute < 0 ∨ 59 < minute then .error (.minute minute)
  else
    match meridiem.filter (· ≠ "") with
    | none =>
      if hh : hour < 0 ∨ 23 < hour then .error (.hour hour)
      else .ok ⟨hour.toNat, minute.toNat, by omega, by omega⟩
    | some s =>
      let s := lowerString s
      if hh : hour < 1 ∨ 12 < hour then .error (.hourOf s hour)
      else .ok ⟨halfDayHour s hour.toNat, minute.toNat, halfDayHour_lt (by omega) (by omega),
        by omega⟩

/-! ### Kept parts -/

/-- The part kept for a field that the row's shape has. -/
def Reading.field (r : Reading) (f : Field) : Except Fault (Option (List Char)) :=
  if f ∈ r.row.shape.fields then .ok (r.get? f) else .error .noField

/-- The number kept for a field, zero if it was left out. -/
def Reading.number (r : Reading) (f : Field) : Except Fault Nat :=
  (r.field f).map fun t => digitsValue (t.getD [])

/-- The time of day of a phrase, or the given one if the phrase leaves it out. -/
def Reading.clock (r : Reading) (otherwise : Option Clock) : Except Fault Clock := do
  match ← r.field .hour with
  | none =>
    match otherwise with
    | some c => .ok c
    | none   => .error (.noHour r.row)
  | some hour =>
    let minute ← r.number .minute
    let meridiem ← r.field .meridiem
    (readClock (digitsValue hour) minute (meridiem.map String.ofList)).mapError .refused

/-! ### Names of weekdays and units -/

/-- The names of the days of the week, Monday being 0. -/
def weekdayNames : List (String × Nat) :=
  [("monday", 0), ("mon", 0), ("tuesday", 1), ("tue", 1), ("tues", 1), ("wednesday", 2), ("wed", 2),
    ("thursday", 3), ("thu", 3), ("thurs", 3), ("friday", 4), ("fri", 4), ("saturday", 5),
    ("sat", 5), ("sunday", 6), ("sun", 6)]

/-- The names of the units of time, and how long they are. -/
def unitNames : List (String × Nat) :=
  [("min", minute), ("mins", minute), ("minute", minute), ("minutes", minute),
    ("hr", hour), ("hrs", hour), ("hour", hour), ("hours", hour),
    ("day", day), ("days", day), ("week", week), ("weeks", week)]

/-- The day of the week with a name, in any case. -/
def weekdayOf (name : String) : Except Fault Nat :=
  match weekdayNames.lookup (lowerString name) with
  | some n => .ok n
  | none   => .error (.unknownWeekday name)

/-- The length of the unit with a name, in lower case. -/
def unitOf (name : String) : Except Fault Nat :=
  match unitNames.lookup name with
  | some n => .ok n
  | none   => .error (.unknownUnit name)

/-! ### Moving on -/

/-- A calendar computation as part of a reading. -/
def onCalendar {α : Type} (r : Except CalendarError α) : Except Fault α :=
  r.mapError .calendar

@[simp] theorem onCalendar_ok {α : Type} (a : α) : onCalendar (.ok a) = .ok a := rfl

@[simp] theorem onCalendar_error {α : Type} (e : CalendarError) :
    onCalendar (.error e : Except CalendarError α) = .error (.calendar e) := rfl

/-- The instant moved by a duration. -/
def moved (i : Instant) (duration : Int) : Except Fault Instant :=
  onCalendar (i.shift duration)

/-- A candidate, on the next day unless it is after the reference. -/
def rollForward (candidate now : Instant) : Except Fault Instant := do
  if ← onCalendar (candidate.isAfter now) then .ok candidate else moved candidate day

/-- The number of days from one day of the week to the next time it is another, at least one. -/
def daysUntil (today target : Int) : Int :=
  let n := (target - today) % 7
  if n = 0 then 7 else n

/-- The next date after that of the reference which is the given day of the week. -/
def nextWeekday (now : Instant) (weekday : Int) : Except Fault Instant :=
  (moved now (day * daysUntil now.wall.weekday weekday)).map (·.atClock dayTime)

/-- The next moment at which clocks show a time of day. -/
def nextClock (now : Instant) (c : Clock) : Except Fault Instant :=
  rollForward (now.atClock c) now

/-! ### Rules -/

/-- The rules of the table. -/
inductive Rule where
  | relativeOffset | clockTime | tomorrow | tomorrowClock | weekday | weekdayClock | explicitDate
  | now | evening | morning | afternoon | nextWeek | nextMonth
  deriving DecidableEq, Repr

/-- The rule of a row. -/
def Row.rule : Row → Rule
  | .inMinutes       => .relativeOffset
  | .inHours         => .relativeOffset
  | .inDays          => .relativeOffset
  | .inWeeks         => .relativeOffset
  | .atClock         => .clockTime
  | .tomorrow        => .tomorrow
  | .tomorrowAtClock => .tomorrowClock
  | .weekday         => .weekday
  | .weekdayAtClock  => .weekdayClock
  | .slashDate       => .explicitDate
  | .isoDate         => .explicitDate
  | .now             => .now
  | .thisEvening     => .evening
  | .thisMorning     => .morning
  | .thisAfternoon   => .afternoon
  | .nextWeek        => .nextWeek
  | .nextMonth       => .nextMonth

namespace Rule

/-- All rules. -/
def all : List Rule :=
  [.relativeOffset, .clockTime, .tomorrow, .tomorrowClock, .weekday, .weekdayClock, .explicitDate,
    .now, .evening, .morning, .afternoon, .nextWeek, .nextMonth]

/-- The name of a rule. -/
def name : Rule → String
  | .relativeOffset => "relative_offset"
  | .clockTime      => "clock_time"
  | .tomorrow       => "tomorrow"
  | .tomorrowClock  => "tomorrow_clock"
  | .weekday        => "weekday"
  | .weekdayClock   => "weekday_clock"
  | .explicitDate   => "explicit_date"
  | .now            => "now"
  | .evening        => "evening"
  | .morning        => "morning"
  | .afternoon      => "afternoon"
  | .nextWeek       => "next_week"
  | .nextMonth      => "next_month"

/-- The rule with a name. -/
def ofName? (s : String) : Option Rule :=
  all.find? (·.name == s)

/-- A positive number of units after the reference. -/
def relativeOffsetOf (r : Reading) (now : Instant) : Except Fault Instant := do
  let unit := String.ofList ((← r.field .unit).getD [])
  let length ← unitOf unit
  let digits := (← r.field .amount).getD []
  match readDigits digits with
  | .error _ => .error (.refused (.amountTooLong digits.length))
  | .ok n    =>
    if n = 0 then .error (.refused (.notPositive n unit))
    else (now.shift (length * n)).mapError fun _ => .refused (.tooLarge n unit)

/-- The day of the week that a phrase names, at the time for days. -/
def weekdayOfReading (r : Reading) (now : Instant) : Except Fault Instant := do
  let name := String.ofList ((← r.field .weekday).getD [])
  nextWeekday now (← weekdayOf name)

/-- The date that a phrase names, at its time of day or the time for days. The time of day is
    looked at first. -/
def explicitDateOf (r : Reading) (now : Instant) : Except Fault Instant := do
  let clock ← r.clock (some dayTime)
  let year ← r.number .year
  let month ← r.number .month
  let day ← r.number .day
  match Date.make year month day with
  | .ok d    => .ok ⟨Wall.on d clock.time clock.time_lt, now.frame, false⟩
  | .error e => .error (.refused (.date e))

/-- The instant that a phrase names, for a reference instant. -/
def resolve (rule : Rule) (r : Reading) (now : Instant) : Except Fault Instant :=
  match rule with
  | .relativeOffset => relativeOffsetOf r now
  | .clockTime      => do nextClock now (← r.clock none)
  | .tomorrow       => do
    let next ← moved now day
    .ok (next.atClock dayTime)
  | .tomorrowClock  => do
    let next ← moved now day
    .ok (next.atClock (← r.clock none))
  | .weekday        => weekdayOfReading r now
  | .weekdayClock   => do
    let next ← weekdayOfReading r now
    .ok (next.atClock (← r.clock none))
  | .explicitDate   => explicitDateOf r now
  | .now            => .ok now
  | .evening        => nextClock now eveningTime
  | .morning        => nextClock now morningTime
  | .afternoon      => nextClock now afternoonTime
  | .nextWeek       => do
    let next ← moved now (7 * day : Nat)
    .ok (next.atClock dayTime)
  | .nextMonth      => do
    let next ← onCalendar now.firstOfNextMonth
    .ok (next.atClock dayTime)

end Rule

/-- The instant that a reading names by the rule of its row. -/
def Reading.resolve (r : Reading) (now : Instant) : Except Fault Instant :=
  r.row.rule.resolve r now

end Almanac.Phrase
