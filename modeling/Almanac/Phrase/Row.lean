import Almanac.Phrase.Category
import Almanac.Phrase.Shape

/-!
# The table of phrases

Each row of the table is a shape of phrase with its category. A phrase belongs to the first row
of the table in use whose shape is that of the whole phrase.
-/

namespace Almanac.Phrase

open Shape

/-! ### Shared parts -/

/-- A time of day: an hour, its minutes after a colon, and the half of the day. -/
def clockShape : Shape :=
  digits .hour 1 (some 2) ++ optional (word ":" ++ digits .minute 2 (some 2)) ++ space ++
    optional (oneOf .meridiem ["am", "pm"])

/-- What stands between a day and a time of day. -/
def atShape : Shape :=
  gap ++ optional (word "at" ++ gap)

/-- A day of the week, full or short. -/
def weekdayShape : Shape :=
  optional (either (word "next") (either (word "this") (word "on")) ++ gap) ++
    oneOf .weekday
      ["monday", "mon", "tuesday", "tues", "tue", "wednesday", "wed", "thursday", "thurs", "thu",
        "friday", "fri", "saturday", "sat", "sunday", "sun"]

/-- The day after today. -/
def tomorrowShape : Shape :=
  either (word "tomorrow") (word "tmrw")

/-- A number of units of time from now. -/
def offsetShape (units : List String) : Shape :=
  word "in" ++ gap ++ digits .amount 1 none ++ space ++ oneOf .unit units

/-! ### Rows -/

/-- The rows of the table. -/
inductive Row where
  | inMinutes | inHours | inDays | inWeeks | atClock | tomorrow | tomorrowAtClock | weekday
  | weekdayAtClock | slashDate | isoDate | now | thisEvening | thisMorning | thisAfternoon
  | nextWeek | nextMonth
  deriving DecidableEq, Repr

namespace Row

/-- All rows, in the order of the table. -/
def all : List Row :=
  [.inMinutes, .inHours, .inDays, .inWeeks, .atClock, .tomorrow, .tomorrowAtClock, .weekday,
    .weekdayAtClock, .slashDate, .isoDate, .now, .thisEvening, .thisMorning, .thisAfternoon,
    .nextWeek, .nextMonth]

theorem mem_all (r : Row) : r ∈ all := by
  cases r <;> decide

/-- The name of a row. -/
def name : Row → String
  | .inMinutes       => "in_minutes"
  | .inHours         => "in_hours"
  | .inDays          => "in_days"
  | .inWeeks         => "in_weeks"
  | .atClock         => "at_clock"
  | .tomorrow        => "tomorrow"
  | .tomorrowAtClock => "tomorrow_at_clock"
  | .weekday         => "weekday"
  | .weekdayAtClock  => "weekday_at_clock"
  | .slashDate       => "slash_date"
  | .isoDate         => "iso_date"
  | .now             => "now"
  | .thisEvening     => "this_evening"
  | .thisMorning     => "this_morning"
  | .thisAfternoon   => "this_afternoon"
  | .nextWeek        => "next_week"
  | .nextMonth       => "next_month"

/-- The row with a name. -/
def ofName? (s : String) : Option Row :=
  all.find? (·.name == s)

/-- The shape of a row's phrases. -/
def shape : Row → Shape
  | .inMinutes       => offsetShape ["minutes", "minute", "mins", "min"]
  | .inHours         => offsetShape ["hours", "hour", "hrs", "hr"]
  | .inDays          => offsetShape ["days", "day"]
  | .inWeeks         => offsetShape ["weeks", "week"]
  | .atClock         => optional (word "today" ++ gap) ++ word "at" ++ gap ++ clockShape
  | .tomorrow        => tomorrowShape
  | .tomorrowAtClock => tomorrowShape ++ atShape ++ clockShape
  | .weekday         => weekdayShape
  | .weekdayAtClock  => weekdayShape ++ atShape ++ clockShape
  | .slashDate       =>
    optional (word "on" ++ gap) ++ digits .month 1 (some 2) ++ word "/" ++
      digits .day 1 (some 2) ++ word "/" ++ digits .year 4 (some 4) ++
      optional (atShape ++ clockShape)
  | .isoDate         =>
    optional (word "on" ++ gap) ++ digits .year 4 (some 4) ++ word "-" ++
      digits .month 2 (some 2) ++ word "-" ++ digits .day 2 (some 2) ++
      optional (either (word "t") atShape ++ clockShape)
  | .now             =>
    either (optional (word "right" ++ gap) ++ word "now")
      (either (word "immediately") (word "asap"))
  | .thisEvening     => either (word "this" ++ gap ++ word "evening") (word "tonight")
  | .thisMorning     => word "this" ++ gap ++ word "morning"
  | .thisAfternoon   => word "this" ++ gap ++ word "afternoon"
  | .nextWeek        => word "next" ++ gap ++ word "week"
  | .nextMonth       => word "next" ++ gap ++ word "month"

/-- The category of a row's phrases. -/
def category : Row → Category
  | .inMinutes       => .relativeOffset
  | .inHours         => .relativeOffset
  | .inDays          => .relativeOffset
  | .inWeeks         => .relativeOffset
  | .atClock         => .clockTime
  | .tomorrow        => .namedDay
  | .tomorrowAtClock => .namedDayClock
  | .weekday         => .weekday
  | .weekdayAtClock  => .weekdayClock
  | .slashDate       => .slashDate
  | .isoDate         => .isoDate
  | .now             => .now
  | .thisEvening     => .evening
  | .thisMorning     => .morning
  | .thisAfternoon   => .afternoon
  | .nextWeek        => .nextWeek
  | .nextMonth       => .nextMonth

end Row

/-! ### Reading a phrase -/

/-- A phrase read by a row, with the parts that its shape keeps. -/
structure Reading where
  row      : Row
  captures : Captures
  deriving DecidableEq, Repr

/-- The reading of a whole text by the first row of a table that can read it. -/
def Reading.find? (table : List Row) (t : List Char) : Option Reading :=
  table.findSome? fun row => (row.shape.readAll? t).map (⟨row, ·⟩)

/-- The part kept for a field, if the phrase has it. -/
def Reading.get? (r : Reading) (f : Field) : Option (List Char) :=
  r.captures.lookup f

@[simp] theorem Reading.find?_nil (t : List Char) : Reading.find? [] t = none := rfl

end Almanac.Phrase
