import Almanac.Calendar.Instant
import Almanac.Text.Numeral

/-!
# Restating an instant

An instant is told back in words: how far ahead it is, in whole minutes or hours, and what the
clock shows then; from a day ahead on, the day and what the clock shows.
-/

namespace Almanac.Phrase

open Calendar Text

/-- The names of the days of the week, from Monday. -/
def longWeekdays : List String :=
  ["Monday", "Tuesday", "Wednesday", "Thursday", "Friday", "Saturday", "Sunday"]

/-- The short names of the months. -/
def shortMonths : List String :=
  ["Jan", "Feb", "Mar", "Apr", "May", "Jun", "Jul", "Aug", "Sep", "Oct", "Nov", "Dec"]

/-- A clock with twelve hours, as in `3:05 PM`. -/
def clockText (w : Wall) : String :=
  let hour := if w.hour % 12 = 0 then 12 else w.hour % 12
  String.ofList (decimal hour ++ ':' :: zeroPadded 2 w.minute) ++
    if w.hour < 12 then " AM" else " PM"

/-- A date without its year, as in `Monday, Jan 22`. -/
def longDateText (w : Wall) : String :=
  longWeekdays.getD w.weekday "" ++ ", " ++ shortMonths.getD (w.date.month - 1) "" ++ " " ++
    String.ofList (decimal w.date.day)

/-- The words for a time at a distance from the reference, which may lie before it. Minutes, hours
    and days are counted in whole ones, rounded down. -/
def restateAt (w : Wall) (distance : Int) : String :=
  let clock := clockText w
  let minutes := distance / minute
  let hours := minutes / 60
  let days := hours / 24
  if 0 ≤ minutes ∧ minutes < 60 then s!"In {minutes} minutes ({clock})"
  else if 0 ≤ hours ∧ hours < 24 then s!"In {hours} hours ({clock})"
  else if days = 1 then s!"Tomorrow at {clock}"
  else longDateText w ++ " at " ++ clock

/-- The words for an instant, as told at the reference instant. -/
def restate (instant now : Instant) : Except CalendarError String :=
  (instant.since now).map (restateAt instant.wall)

end Almanac.Phrase
