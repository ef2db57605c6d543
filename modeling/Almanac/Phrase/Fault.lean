import Almanac.Calendar.Wall
import Almanac.Phrase.Row
import Almanac.Text.Numeral
import Almanac.Text.Quoted

/-!
# Why a phrase names no time

A refusal is the fault of the phrase: its numbers name no time, and whoever wrote it is told so.
Any other fault breaks off the reading.
-/

namespace Almanac.Phrase

open Calendar

/-- Why the numbers of a phrase name no time. -/
inductive Refusal where
  | minute (minute : Int)
  | hour (hour : Int)
  | hourOf (meridiem : String) (hour : Int)
  /-- The amount has too many digits to be read. -/
  | amountTooLong (digits : Nat)
  | notPositive (amount : Nat) (unit : String)
  /-- The offset leads out of the calendar. -/
  | tooLarge (amount : Nat) (unit : String)
  | date (e : DateError)
  deriving DecidableEq, Repr

/-- What is said of a refused phrase. -/
def Refusal.message : Refusal → String
  | .minute m             => s!"Invalid minute: {m}"
  | .hour h               => s!"Invalid hour: {h}"
  | .hourOf meridiem h    => s!"Invalid hour for {meridiem}: {h}"
  | .amountTooLong digits => "Invalid amount: " ++ Text.tooLongMessage digits
  | .notPositive n unit   => s!"Offset must be positive, got {n} {unit}"
  | .tooLarge n unit      => s!"Offset too large: {n} {unit}"
  | .date e               => "Invalid date: " ++ e.message

/-- Why a reading names no time. -/
inductive Fault where
  | refused (r : Refusal)
  | unknownWeekday (name : String)
  | unknownUnit (name : String)
  /-- A time of day is needed, and the phrase, read by this row, has none. -/
  | noHour (row : Row)
  /-- A field is needed that the row's shape does not have. -/
  | noField
  | calendar (e : CalendarError)
  deriving DecidableEq, Repr

/-- What is said of a fault. -/
def Fault.message : Fault → String
  | .refused r        => r.message
  | .unknownWeekday s => "Weekday alias " ++ Text.quoted s ++ " has no weekday index"
  | .unknownUnit s    => "Unit " ++ Text.quoted s ++ " has no duration"
  | .noHour row       => "Pattern " ++ Text.quoted row.shape.pattern ++ " captured no hour"
  | .noField          => "no such group"
  | .calendar e       => e.message

end Almanac.Phrase
