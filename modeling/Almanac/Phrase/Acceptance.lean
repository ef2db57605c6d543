import Almanac.Calendar.Instant

/-!
# Acceptable schedule times

A schedule time is acceptable when it lies after the reference instant and at most one calendar
year ahead of it.
-/

namespace Almanac.Phrase

open Calendar

/-- Whether a schedule time is acceptable, and if not, why. -/
inductive Verdict where
  | accepted
  | past
  | tooFarAhead
  deriving DecidableEq, Repr

/-- What is said of a schedule time that is not acceptable. -/
def Verdict.reason? : Verdict → Option String
  | .accepted    => none
  | .past        => some "Schedule time must be in the future"
  | .tooFarAhead => some "Schedule time cannot be more than 1 year in the future"

/-- Look at a schedule time at a reference instant. The limit of one year is worked out only for a
    time after the reference. -/
def judge (instant now : Instant) : Except CalendarError Verdict := do
  if ← instant.isAfter now then
    let latest ← now.nextYear
    if ← instant.isAfter latest then .ok .tooFarAhead else .ok .accepted
  else .ok .past

end Almanac.Phrase
