import Almanac.Phrase.Normal
import Almanac.Phrase.Restatement
import Almanac.Phrase.Rule

/-!
# Interpreting a phrase

A phrase is put into normal form, read by a row of the table, and resolved by the rule of that
row. The outcome is an instant told back in words, or a failure that says what is wrong with the
phrase; other faults break the interpretation off.
-/

namespace Almanac.Phrase

open Calendar

/-- Why a phrase is not understood. -/
inductive Failure where
  /-- Nothing is left of the phrase in its normal form. -/
  | empty
  | unmatched
  | refused (r : Refusal)
  deriving DecidableEq, Repr

/-- What is said of a phrase that no row reads. -/
def unmatchedMessage : String :=
  "Could not parse the schedule time. Try formats like \"tomorrow at 3pm\", \"in 2 hours\", " ++
    "or \"monday at 9:30am\""

/-- What is said of a phrase that is not understood. -/
def Failure.message : Failure → String
  | .empty     => "Schedule input is required"
  | .unmatched => unmatchedMessage
  | .refused r => unmatchedMessage ++ " (" ++ r.message ++ ")"

theorem Failure.message_ne_empty (why : Failure) : why.message ≠ "" := by
  have h : unmatchedMessage ≠ "" := by decide +kernel
  cases why <;> simp [Failure.message, h]

/-- The words for the time of a phrase that is not understood. -/
def unparsed : String := "Unable to parse"

/-- The outcome of interpreting a phrase. -/
inductive Interpretation where
  | resolved (category : Category) (instant : Instant) (words : String)
  | failed (why : Failure)
  deriving DecidableEq

/-- The instant that a reading names, told back in words. A refusal is a failure of the phrase. -/
def Reading.interpret (r : Reading) (now : Instant) : Except Fault Interpretation :=
  match r.resolve now with
  | .ok instant => (onCalendar (restate instant now)).map (.resolved r.row.category instant)
  | .error (.refused why) => .ok (.failed (.refused why))
  | .error fault => .error fault

/-- The meaning of a phrase at a reference instant, by a table of rows. -/
def interpret (table : List Row) (text : List Char) (now : Instant) :
    Except Fault Interpretation :=
  let t := normalize text
  if t = [] then .ok (.failed .empty)
  else
    match Reading.find? table t with
    | none   => .ok (.failed .unmatched)
    | some r => r.interpret now

end Almanac.Phrase
