import Almanac.Calendar.Date

/-!
# Wall-clock times

A wall-clock time is what a calendar and a clock on the wall show: a date and a time of day, to the
microsecond. It is kept as the number of microseconds since the start of year 1, so that times
are compared and moved as numbers.
-/

namespace Almanac.Calendar

/-! ### Durations, in microseconds -/

/-- A second. -/
def second : Nat := 1000000

/-- A minute. -/
def minute : Nat := 60 * second

/-- An hour. -/
def hour : Nat := 60 * minute

/-- A day. -/
def day : Nat := 24 * hour

/-- A week. -/
def week : Nat := 7 * day

/-! ### Errors -/

/-- Why a calendar computation has no result. -/
inductive CalendarError where
  /-- A time before year 1 or after year 9999. -/
  | overflow
  | date (e : DateError)
  | hour
  | minute
  /-- Two times were compared of which only one has an offset from UTC. -/
  | unordered
  /-- Two times were subtracted of which only one has an offset from UTC. -/
  | unrelated
  deriving DecidableEq, Repr

/-- What is said of a computation without a result. -/
def CalendarError.message : CalendarError → String
  | .overflow  => "date value out of range"
  | .date e    => e.message
  | .hour      => "hour must be in 0..23"
  | .minute    => "minute must be in 0..59"
  | .unordered => "can't compare offset-naive and offset-aware datetimes"
  | .unrelated => "can't subtract offset-naive and offset-aware datetimes"

/-! ### Clocks -/

/-- A time of day in whole minutes. -/
structure Clock where
  hour   : Nat
  minute : Nat
  hour_lt   : hour < 24
  minute_lt : minute < 60
  deriving DecidableEq

/-- The clock with the given hour and minute. The hour is looked at first. -/
def Clock.make (hour minute : Int) : Except CalendarError Clock :=
  if hh : 0 ≤ hour ∧ hour < 24 then
    if hm : 0 ≤ minute ∧ minute < 60 then
      .ok ⟨hour.toNat, minute.toNat, by omega, by omega⟩
    else .error .minute
  else .error .hour

/-- The time since midnight. -/
def Clock.time (c : Clock) : Nat :=
  Calendar.hour * c.hour + Calendar.minute * c.minute

theorem Clock.time_lt (c : Clock) : c.time < day := by
  have h₁ := c.hour_lt
  have h₂ := c.minute_lt
  simp only [Clock.time, day, Calendar.hour, Calendar.minute, second]
  omega

/-! ### Times -/

/-- The length of the calendar. -/
def span : Nat := day * dayCount

/-- A date and a time of day, counted from the start of year 1. -/
structure Wall where
  ticks   : Nat
  inRange : ticks < span
  deriving DecidableEq

namespace Wall

instance : LE Wall := ⟨fun v w => v.ticks ≤ w.ticks⟩

instance : LT Wall := ⟨fun v w => v.ticks < w.ticks⟩

instance (v w : Wall) : Decidable (v ≤ w) := inferInstanceAs (Decidable (v.ticks ≤ w.ticks))

instance (v w : Wall) : Decidable (v < w) := inferInstanceAs (Decidable (v.ticks < w.ticks))

@[ext] theorem ext {v w : Wall} (h : v.ticks = w.ticks) : v = w := by
  cases v
  cases w
  simp_all

theorem le_def {v w : Wall} : v ≤ w ↔ v.ticks ≤ w.ticks := Iff.rfl

theorem lt_def {v w : Wall} : v < w ↔ v.ticks < w.ticks := Iff.rfl

/-- The time a number of microseconds after the start of year 1. -/
def ofTicks? (n : Int) : Option Wall :=
  if h : 0 ≤ n ∧ n < span then some ⟨n.toNat, by omega⟩ else none

theorem ofTicks?_eq_some_iff {n : Int} {w : Wall} : ofTicks? n = some w ↔ n = w.ticks := by
  have := w.inRange
  simp only [ofTicks?]
  split
  · next h => simp [Wall.ext_iff]; omega
  · next h => simp; omega

/-- The time moved by a duration, which may be negative. -/
def shift (w : Wall) (duration : Int) : Except CalendarError Wall :=
  match ofTicks? (w.ticks + duration) with
  | some v => .ok v
  | none   => .error .overflow

theorem shift_eq_ok_iff {w v : Wall} {d : Int} : w.shift d = .ok v ↔ (v.ticks : Int) = w.ticks + d := by
  simp only [shift]
  split
  · next u hu =>
    rw [ofTicks?_eq_some_iff] at hu
    simp [Wall.ext_iff]
    omega
  · next hn =>
    simp only [reduceCtorEq, false_iff]
    intro h
    rw [← h, ofTicks?_eq_some_iff.2 rfl] at hn
    simp at hn

/-! ### Dates and times of day -/

/-- The number of whole days since the start of year 1. -/
def dayIndex (w : Wall) : Nat :=
  w.ticks / day

/-- The time since midnight. -/
def time (w : Wall) : Nat :=
  w.ticks % day

theorem dayIndex_lt (w : Wall) : w.dayIndex < dayCount :=
  Nat.div_lt_of_lt_mul w.inRange

theorem time_lt (w : Wall) : w.time < day :=
  Nat.mod_lt _ (by decide)

/-- The date. -/
def date (w : Wall) : Date :=
  Date.ofIndex w.dayIndex w.dayIndex_lt

/-- The hour, from 0 to 23. -/
def hour (w : Wall) : Nat :=
  w.time / Calendar.hour

/-- The minute, from 0 to 59. -/
def minute (w : Wall) : Nat :=
  w.time / Calendar.minute % 60

/-- The second, from 0 to 59. -/
def second (w : Wall) : Nat :=
  w.time / Calendar.second % 60

/-- The microsecond, from 0 to 999999. -/
def microsecond (w : Wall) : Nat :=
  w.time % Calendar.second

/-- The day of the week; Monday is 0 and Sunday 6. -/
def weekday (w : Wall) : Nat :=
  w.dayIndex % 7

/-- A time of day on a date. -/
def on (d : Date) (time : Nat) (h : time < day) : Wall :=
  ⟨day * d.index + time, by
    calc day * d.index + time < day * d.index + day := by omega
      _ = day * (d.index + 1) := (Nat.mul_succ ..).symm
      _ ≤ day * dayCount := Nat.mul_le_mul_left _ d.index_lt⟩

/-- The same date, at another time of day in whole minutes. -/
def atClock (w : Wall) (c : Clock) : Wall :=
  on w.date c.time c.time_lt

@[simp] theorem index_date (w : Wall) : w.date.index = w.dayIndex :=
  Date.index_ofIndex ..

@[simp] theorem ticks_on (d : Date) (t : Nat) (h : t < day) : (on d t h).ticks = day * d.index + t :=
  rfl

@[simp] theorem dayIndex_on (d : Date) (t : Nat) (h : t < day) : (on d t h).dayIndex = d.index := by
  simp only [dayIndex, ticks_on]
  rw [Nat.add_comm, Nat.add_mul_div_left _ _ (by decide), Nat.div_eq_of_lt h, Nat.zero_add]

@[simp] theorem time_on (d : Date) (t : Nat) (h : t < day) : (on d t h).time = t := by
  simp only [time, ticks_on]
  rw [Nat.add_comm, Nat.add_mul_mod_self_left, Nat.mod_eq_of_lt h]

/-! ### Months and years -/

/-- The same time of day on another date, if there is such a date. -/
def onDate (w : Wall) (d : Except DateError Date) : Except CalendarError Wall :=
  match d with
  | .ok d    => .ok (on d w.time w.time_lt)
  | .error e => .error (.date e)

/-- The same time of day on the first day of the next month. -/
def firstOfNextMonth (w : Wall) : Except CalendarError Wall :=
  let d := w.date
  w.onDate (if d.month = 12 then Date.make (d.year + 1) 1 1 else Date.make d.year (d.month + 1) 1)

/-- The same time of day and day of the month a year later; where the month is too short for that
    day, on its last day. -/
def nextYear (w : Wall) : Except CalendarError Wall :=
  let d := w.date
  w.onDate (Date.make (d.year + 1) d.month (min d.day (daysInMonth (d.year + 1) d.month)))

end Wall

end Almanac.Calendar
