import Almanac.Calendar.Zone

/-!
# Instants

An instant is a wall-clock time in a frame, which says how the time relates to UTC: not at all, by
a fixed offset, or by the rules of a zone. Times of one frame are compared, subtracted and moved
on the wall clock, as if no offset ever changed; only times of different frames meet in UTC.
-/

namespace Almanac.Calendar

/-- How a wall-clock time relates to UTC. -/
inductive Frame where
  | floating
  | fixed (offset : Int)
  | zoned (zone : Zone)
  deriving DecidableEq, Repr

/-- A wall-clock time in a frame. Of two readings the earlier one is meant, unless `later`. -/
structure Instant where
  wall  : Wall
  frame : Frame
  later : Bool
  deriving DecidableEq

namespace Instant

/-- The offset from UTC. -/
def offset? (i : Instant) : Option Int :=
  match i.frame with
  | .floating => none
  | .fixed o  => some o
  | .zoned z  => some (z.offset i.wall i.later)

/-- The time in UTC, counted from the start of year 1. -/
def utcTicks? (i : Instant) : Option Int :=
  i.offset?.map (i.wall.ticks - ·)

/-! ### Wall-clock arithmetic -/

/-- The time from `j` to `i`: on the wall clock within a frame, in UTC between two frames. -/
def since? (i j : Instant) : Option Int :=
  if i.frame = j.frame then some (i.wall.ticks - j.wall.ticks)
  else
    match i.utcTicks?, j.utcTicks? with
    | some a, some b => some (a - b)
    | _,      _      => none

/-- The time from `j` to `i`. -/
def since (i j : Instant) : Except CalendarError Int :=
  match i.since? j with
  | some d => .ok d
  | none   => .error .unrelated

/-- Whether `i` is after `j`. -/
def isAfter (i j : Instant) : Except CalendarError Bool :=
  match i.since? j with
  | some d => .ok (0 < d)
  | none   => .error .unordered

/-- The instant moved by a duration on the wall clock, in its earlier reading. -/
def shift (i : Instant) (duration : Int) : Except CalendarError Instant :=
  (i.wall.shift duration).map fun w => ⟨w, i.frame, false⟩

/-- The same date at another time of day, in the same reading. -/
def atClock (i : Instant) (c : Clock) : Instant :=
  { i with wall := i.wall.atClock c }

/-- The same time of day on the first day of the next month. -/
def firstOfNextMonth (i : Instant) : Except CalendarError Instant :=
  i.wall.firstOfNextMonth.map fun w => ⟨w, i.frame, false⟩

/-- The same wall-clock time a year later. -/
def nextYear (i : Instant) : Except CalendarError Instant :=
  i.wall.nextYear.map fun w => ⟨w, i.frame, false⟩

theorem since?_of_frame_eq {i j : Instant} (h : i.frame = j.frame) :
    i.since? j = some ((i.wall.ticks : Int) - j.wall.ticks) := by
  simp [since?, h]

theorem isAfter_of_frame_eq {i j : Instant} (h : i.frame = j.frame) :
    i.isAfter j = .ok (decide (j.wall < i.wall)) := by
  have : (0 : Int) < (i.wall.ticks : Int) - j.wall.ticks ↔ j.wall < i.wall := by
    rw [Wall.lt_def]
    omega
  simp only [isAfter, since?_of_frame_eq h, this]

@[simp] theorem frame_atClock (i : Instant) (c : Clock) : (i.atClock c).frame = i.frame := rfl

@[simp] theorem wall_atClock (i : Instant) (c : Clock) :
    (i.atClock c).wall = i.wall.atClock c := rfl

/-! ### Conversion -/

/-- The wall-clock time in UTC. A floating time is read as UTC, save on the first day of the
    calendar, around which there is no room to look for its offset. -/
def utcWall (i : Instant) : Except CalendarError Wall :=
  match i.utcTicks? with
  | some n => (Wall.ofTicks? n).elim (.error .overflow) .ok
  | none   => if i.wall.dayIndex = 0 then .error (.date (.year 0)) else .ok i.wall

/-- The wall-clock time in UTC is the time in UTC, if that is in the calendar. -/
theorem utcWall_eq_ok_iff_of_utcTicks {i : Instant} {n : Int} {w : Wall}
    (h : i.utcTicks? = some n) : i.utcWall = .ok w ↔ n = w.ticks := by
  rw [← Wall.ofTicks?_eq_some_iff]
  cases hw : Wall.ofTicks? n <;> simp [utcWall, h, hw]

/-- The instant as it is shown in UTC. -/
def toUtc (i : Instant) : Except CalendarError Instant :=
  i.utcWall.map fun w => ⟨w, .fixed 0, false⟩

/-- The instant as it is shown in a zone. -/
def inZone (i : Instant) (z : Zone) : Except CalendarError Instant :=
  if i.frame = .zoned z then .ok i
  else do
    let utc ← i.utcWall
    let (offset, later) := z.fromUtc utc
    let wall ← utc.shift offset
    .ok ⟨wall, .zoned z, later⟩

end Instant

end Almanac.Calendar
