import Almanac.Calendar.Iso
import Almanac.Phrase.Acceptance
import Almanac.Phrase.Interpretation
import Almanac.Record.Issue

/-!
# Reports

The outcome of interpreting a phrase, and the verdict on a schedule time, as flat records. The
fields of a record must go together, which is checked when one is made from given data; the
records of outcomes and verdicts always pass.
-/

namespace Almanac.Record

open Calendar Phrase Decimal

/-! ### Reports of interpretations -/

/-- The outcome of interpreting a phrase. -/
structure Report where
  success        : Bool
  instant        : Option Instant
  confidence     : Binary64
  interpretation : String
  error          : Option String
  category       : Option Category
  deriving DecidableEq

/-- A number of hundredths. -/
def hundredths (n : Nat) : Binary64 :=
  Binary64.ofDecimal false n (-2)

/-- Why the fields of a report do not go together, if they do not. -/
def Report.fault? (r : Report) : Option String :=
  if r.success then
    if r.instant = none ∨ r.error ≠ none then
      some "successful result needs an instant and no error"
    else if r.confidence.leInt 0 then some "successful result needs a positive confidence"
    else none
  else
    if r.instant ≠ none ∨ r.error.filter (· ≠ "") = none then
      some "failed result needs an error and no instant"
    else if !r.confidence.isZero then some "failed result must have zero confidence"
    else none

/-- The report of an interpretation. -/
def report : Interpretation → Report
  | .resolved category instant words =>
    ⟨true, some instant, hundredths (confidence (some category)), words, none, some category⟩
  | .failed why =>
    ⟨false, none, hundredths (confidence none), unparsed, some why.message, none⟩

theorem fault?_report (i : Interpretation) : (report i).fault? = none := by
  cases i with
  | resolved category instant words =>
    have h : (hundredths (confidence (some category))).leInt 0 = false := by
      cases category <;> decide +kernel
    simp [report, Report.fault?, h]
  | failed why =>
    have h : (hundredths (confidence none)).isZero = true := by decide +kernel
    simp [report, Report.fault?, h, Failure.message_ne_empty, Option.filter]

/-- A number between zero and one. -/
def boundedField (x : Binary64) : Checked Binary64 :=
  if !x.leInt 1 then .error .aboveOne
  else if !x.geInt 0 then .error .belowZero
  else .ok x

/-- A confidence between zero and one, zero if it is left out. -/
def confidenceField : Option Json → Checked Binary64
  | none            => .ok Binary64.zero
  | some (.int n)   => boundedField (Binary64.ofRat n)
  | some (.float x) => boundedField x
  | some _          => .error .notNumber

/-- The words of a report; those for a phrase that is not understood if they are left out. -/
def wordsField : Option Json → Checked String
  | none   => .ok unparsed
  | some j => textField j

/-- A category that may be left out. -/
def categoryField : Option Json → Checked (Option Category)
  | none       => .ok none
  | some .null => .ok none
  | some (.str s) =>
    match Category.ofName? s with
    | some c => .ok (some c)
    | none   => .error (.notOneOf (Category.all.map Category.name))
  | some _     => .error (.notOneOf (Category.all.map Category.name))

/-- An instant that may be left out. -/
def instantField : Option Json → Option Instant
  | some (.str s) => Instant.read? s
  | _             => none

/-- Make a report from given data. The fields are checked in order, and together only when each is
    valid by itself. -/
def Report.make (data : Json) : Except (List Issue) Report :=
  let success := boolField (data.get? "success")
  let confidence := confidenceField (data.get? "confidence")
  let words := wordsField (data.get? "interpretation")
  let error := optionalText (data.get? "error")
  let category := categoryField (data.get? "category")
  match success, confidence, words, error, category with
  | .ok success, .ok confidence, .ok words, .ok error, .ok category =>
    let r : Report :=
      ⟨success, instantField (data.get? "instant"), confidence, words, error, category⟩
    match r.fault? with
    | none     => .ok r
    | some why => .error [⟨.inconsistent why, [], data⟩]
  | _, _, _, _, _ =>
    .error (success.issues [] data "success" ++ confidence.issues [] data "confidence" ++
      words.issues [] data "interpretation" ++ error.issues [] data "error" ++
      category.issues [] data "category")

/-! ### Rulings on schedule times -/

/-- Whether a schedule time is acceptable, and if not, why. -/
structure Ruling where
  valid  : Bool
  reason : Option String
  deriving DecidableEq, Repr

/-- Why the fields of a ruling do not go together, if they do not. -/
def Ruling.fault? (r : Ruling) : Option String :=
  if r.valid then
    if r.reason ≠ none then some "valid result cannot carry a reason" else none
  else if r.reason.filter (· ≠ "") = none then some "invalid result needs a reason"
  else none

/-- The ruling that a verdict gives. -/
def ruling (v : Verdict) : Ruling :=
  ⟨v.reason?.isNone, v.reason?⟩

theorem fault?_ruling (v : Verdict) : (ruling v).fault? = none := by
  cases v <;> decide

/-- Make a ruling from given data. -/
def Ruling.make (data : Json) : Except (List Issue) Ruling :=
  let valid := boolField (data.get? "valid")
  let reason := optionalText (data.get? "reason")
  match valid, reason with
  | .ok valid, .ok reason =>
    let r : Ruling := ⟨valid, reason⟩
    match r.fault? with
    | none     => .ok r
    | some why => .error [⟨.inconsistent why, [], data⟩]
  | _, _ => .error (valid.issues [] data "valid" ++ reason.issues [] data "reason")

/-- The issue with setting a field of a record that is made. -/
def frozenIssue (name : String) : Issue :=
  ⟨.frozen, [.name name], .null⟩

end Almanac.Record
