/-!
# Categories of phrases

A category is the kind of time that a phrase names. How much a reading is trusted depends on its
category alone.
-/

namespace Almanac.Phrase

/-- The kind of time that a phrase names. -/
inductive Category where
  | relativeOffset | clockTime | namedDay | namedDayClock | weekday | weekdayClock | slashDate
  | isoDate | now | evening | morning | afternoon | nextWeek | nextMonth
  deriving DecidableEq, Repr

namespace Category

/-- All categories. -/
def all : List Category :=
  [.relativeOffset, .clockTime, .namedDay, .namedDayClock, .weekday, .weekdayClock, .slashDate,
    .isoDate, .now, .evening, .morning, .afternoon, .nextWeek, .nextMonth]

/-- The name of a category. -/
def name : Category → String
  | .relativeOffset => "relative_offset"
  | .clockTime      => "clock_time"
  | .namedDay       => "named_day"
  | .namedDayClock  => "named_day_clock"
  | .weekday        => "weekday"
  | .weekdayClock   => "weekday_clock"
  | .slashDate      => "slash_date"
  | .isoDate        => "iso_date"
  | .now            => "now"
  | .evening        => "evening"
  | .morning        => "morning"
  | .afternoon      => "afternoon"
  | .nextWeek       => "next_week"
  | .nextMonth      => "next_month"

/-- The category with a name. -/
def ofName? (s : String) : Option Category :=
  all.find? (·.name == s)

theorem mem_all (c : Category) : c ∈ all := by
  cases c <;> decide

/-- How much a reading of the category is trusted, in hundredths. -/
def confidence : Category → Nat
  | .isoDate        => 95
  | .clockTime      => 90
  | .relativeOffset => 85
  | .weekday        => 80
  | .weekdayClock   => 80
  | .namedDay       => 75
  | .namedDayClock  => 75
  | .evening        => 75
  | _               => 60

end Category

/-- How much the reading of a phrase is trusted, in hundredths; not at all without a category. -/
def confidence (c : Option Category) : Nat :=
  (c.map Category.confidence).getD 0

end Almanac.Phrase
