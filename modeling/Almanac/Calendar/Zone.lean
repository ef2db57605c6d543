import Almanac.Calendar.Wall

/-!
# Time zones

Clocks in a zone are set by an offset from UTC, east being positive, which changes at some moments.
A wall-clock time that is skipped when clocks are changed, or that is shown twice, has two readings:
the earlier one goes by the offset before the change, and the later one by that after it.
-/

namespace Almanac.Calendar

/-- A moment in UTC, counted from the start of year 1, from which on clocks have another offset. -/
structure Turn where
  moment : Int
  offset : Int
  deriving DecidableEq, Repr

/-- A time zone: the offset that clocks have at first, and the turns in the order in which they
    come. A yearly rule is written out, up to the end of the calendar. -/
structure Zone where
  name  : String
  first : Int
  turns : List Turn
  deriving DecidableEq, Repr

/-- A change of clocks from one offset to another. -/
structure Change where
  moment : Int
  before : Int
  after  : Int
  deriving DecidableEq, Repr

/-- The wall-clock time from which on the offset after the change is taken. At its moment clocks
    show two times; the later readings go by the new offset from the first of them on, and the
    earlier readings from the second. -/
def Change.turn (later : Bool) (c : Change) : Int :=
  c.moment + if later then min c.before c.after else max c.before c.after

namespace Zone

/-- The changes at some turns, before which clocks have a given offset. -/
def changesFrom : Int → List Turn → List Change
  | _,      []      => []
  | before, t :: ts => ⟨t.moment, before, t.offset⟩ :: changesFrom t.offset ts

/-- The changes of clocks in the zone. -/
def changes (z : Zone) : List Change :=
  changesFrom z.first z.turns

/-- The changes whose time, as `due` gives it, has come at a time. -/
def come (z : Zone) (due : Change → Int) (t : Int) : List Change :=
  z.changes.takeWhile (due · ≤ t)

/-- The offset when just some of the changes have come. -/
def offsetAfter (z : Zone) (come : List Change) : Int :=
  (come.getLast?.map Change.after).getD z.first

/-- The offset from UTC at which a wall-clock time is read, in its earlier or its later reading. -/
def offset (z : Zone) (w : Wall) (later : Bool) : Int :=
  z.offsetAfter (z.come (Change.turn later) w.ticks)

/-- The offset in force at a time given in UTC, and whether the wall-clock time then shown is the
    later one of two readings: it was shown before, as long ago as clocks have been put back. -/
def fromUtc (z : Zone) (utc : Wall) : Int × Bool :=
  let come := z.come Change.moment utc.ticks
  let again := come.getLast?.any fun c => decide ((utc.ticks : Int) < c.moment + (c.before - c.after))
  (z.offsetAfter come, again)

end Zone

end Almanac.Calendar
