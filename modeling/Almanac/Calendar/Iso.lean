import Almanac.Calendar.Instant
import Almanac.Text.Numeral

/-!
# ISO text

An instant is written as date, time of day and offset from UTC, as in
`2024-01-15T10:00:00+05:30`. Microseconds, and the seconds of an offset, are written when they are
not zero, and a floating time has no offset. In the UTC text a `Z` stands for the offset.
-/

namespace Almanac.Calendar

open Text (zeroPadded)

/-! ### Writing -/

/-- Microseconds after a point, unless there are none. -/
def fractionText (n : Nat) : List Char :=
  if n = 0 then [] else '.' :: zeroPadded 6 n

/-- A date. -/
def Date.text (d : Date) : List Char :=
  zeroPadded 4 d.year ++ '-' :: zeroPadded 2 d.month ++ '-' :: zeroPadded 2 d.day

/-- A date and a time of day. -/
def Wall.text (w : Wall) : List Char :=
  w.date.text ++ 'T' :: zeroPadded 2 w.hour ++ ':' :: zeroPadded 2 w.minute ++
    ':' :: zeroPadded 2 w.second ++ fractionText w.microsecond

/-- An offset from UTC. -/
def offsetText (offset : Int) : List Char :=
  let n := offset.natAbs
  let seconds :=
    if n % minute = 0 then []
    else ':' :: zeroPadded 2 (n / second % 60) ++ fractionText (n % second)
  (if offset < 0 then '-' else '+') ::
    zeroPadded 2 (n / hour) ++ ':' :: zeroPadded 2 (n / minute % 60) ++ seconds

/-- An instant. -/
def Instant.text (i : Instant) : String :=
  String.ofList (i.wall.text ++ (i.offset?.map offsetText).getD [])

/-- An instant as it is shown in UTC. -/
def Instant.utcText (i : Instant) : Except CalendarError String :=
  i.utcWall.map fun w => String.ofList (w.text ++ ['Z'])

/-! ### Reading -/

/-- A number of exactly `width` digits. -/
def takeNumber? : Nat → Nat → List Char → Option (Nat × List Char)
  | 0,         acc, t      => some (acc, t)
  | _ + 1,     _,   []     => none
  | width + 1, acc, c :: t =>
    if '0' ≤ c ∧ c ≤ '9' then takeNumber? width (10 * acc + (c.toNat - 48)) t else none

/-- A given character, then a number of two digits. -/
def takeMarked? (mark : Char) : List Char → Option (Nat × List Char)
  | []     => none
  | c :: t => if c = mark then takeNumber? 2 0 t else none

/-- A fraction of a second, if there is one. -/
def takeFraction? : List Char → Option (Nat × List Char)
  | '.' :: t => takeNumber? 6 0 t
  | t        => some (0, t)

/-- The whole of a text as an offset: none, `Z`, or hours and minutes with optional seconds. -/
def readFrame? : List Char → Option Frame
  | []        => some .floating
  | ['Z']     => some (.fixed 0)
  | sign :: t => do
    let (h, t) ← takeNumber? 2 0 t
    let (m, t) ← takeMarked? ':' t
    let (s, t) ← if t = [] then some (0, t) else takeMarked? ':' t
    let (f, t) ← takeFraction? t
    let n : Int := (hour * h + minute * m + second * s + f : Nat)
    if t ≠ [] ∨ day ≤ n.natAbs then none
    else if sign = '+' then some (.fixed n)
    else if sign = '-' then some (.fixed (-n))
    else none

/-- The instant that a text writes, in its earlier reading. -/
def Instant.read? (s : String) : Option Instant := do
  let (y, t) ← takeNumber? 4 0 s.toList
  let (mo, t) ← takeMarked? '-' t
  let (d, t) ← takeMarked? '-' t
  let (h, t) ← takeMarked? 'T' t
  let (mi, t) ← takeMarked? ':' t
  let (s, t) ← takeMarked? ':' t
  let (f, t) ← takeFraction? t
  let frame ← readFrame? t
  let date ← (Date.make y mo d).toOption
  let time := hour * h + minute * mi + second * s + f
  if hr : h < 24 ∧ mi < 60 ∧ s < 60 ∧ time < day then
    some ⟨Wall.on date time hr.2.2.2, frame, false⟩
  else none

end Almanac.Calendar
