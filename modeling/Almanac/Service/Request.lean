import Almanac.Calendar.Instant
import Almanac.Json.Encoding
import Almanac.Record.Issue
import Almanac.Service.Client
import Almanac.Text.LowerCase

/-!
# Requests

A request as it reaches the service, and what its body asks for.
-/

namespace Almanac.Service

open Record

/-- A request. The reference instant and the reading of the limiter's clock are those of the moment
    at which it arrives. -/
structure Request where
  method  : String
  path    : String
  headers : Headers
  peer    : Option String
  body    : String
  now     : Calendar.Instant
  clock   : Rat

/-! ### Bodies -/

/-- Why a body is not read. -/
inductive BodyError where
  | notJson (position : Nat)
  /-- The body is no text, holds a number that is too long, or is nested too deep. -/
  | unreadable
  deriving DecidableEq, Repr

/-- Whether a type of bodies is JSON: `application/json`, or one that ends in `+json`. The parameters
    after it do not matter. -/
def isJsonType (type : String) : Bool :=
  let t := Text.lower (Text.trim (type.toList.takeWhile (· ≠ ';')))
  let main := "application/".toList
  let subtype := t.drop main.length
  main.isPrefixOf t && !subtype.contains '/' &&
    (subtype == "json".toList || "+json".toList.isSuffixOf subtype)

/-- Whether a body sent with some headers is read as JSON. One without a type is. -/
def readsJson (headers : Headers) : Bool :=
  ((header? headers "content-type").filter (· ≠ "")).all isJsonType

/-- The value that a body holds, none if it is empty. A body of a type other than JSON is taken as a
    text, whatever it holds. -/
def readBody (headers : Headers) (body : String) : Except BodyError (Option Json) :=
  if body = "" then .ok none
  else if readsJson headers then
    match Json.decode? (Text.utf8 body.toList) with
    | none => .error .unreadable
    | some t =>
      match Json.read t with
      | .ok j => .ok (some j)
      | .error (.malformed position) => .error (.notJson position)
      | .error .longNumeral => .error .unreadable
      | .error .tooDeep => .error .unreadable
  else .ok (some (.str body))

/-! ### Phrases to schedule -/

/-- The time zone that a scheduling request asks for. -/
inductive ZoneChoice where
  /-- None is named, or the name is empty. -/
  | unnamed
  | named (name : String)
  /-- The name has half of a surrogate pair. -/
  | broken
  deriving DecidableEq, Repr

/-- What the body of a scheduling request asks for. -/
structure PhraseRequest where
  phrase : String
  zone   : ZoneChoice
  deriving DecidableEq, Repr

/-- A phrase, which may not be empty. -/
def phraseField : Option Json → Checked String
  | none          => .error .missing
  | some (.str s) => if s = "" then .error .emptyText else .ok s
  | some j        => textField j

/-- The name of a time zone, which may be left out. -/
def zoneField : Option Json → Checked ZoneChoice
  | none            => .ok .unnamed
  | some .null      => .ok .unnamed
  | some (.str s)   => .ok (if s = "" then .unnamed else .named s)
  | some .brokenStr => .ok .broken
  | some _          => .error .notText

/-- What a body asks for. A body that is `null` is not missing; it is no object. -/
def PhraseRequest.make (body : Option Json) : Except (List Issue) PhraseRequest :=
  let path := [Place.name "body"]
  match body with
  | none => .error [⟨.missing, path, .null⟩]
  | some (.obj members) =>
    let data := Json.obj members
    let phrase := phraseField (data.get? "input")
    let zone := zoneField (data.get? "timezone")
    match phrase, zone with
    | .ok phrase, .ok zone => .ok ⟨phrase, zone⟩
    | _, _ => .error (phrase.issues path data "input" ++ zone.issues path data "timezone")
  | some j => .error [⟨.notObject, path, j⟩]

/-! ### Credentials -/

/-- The token of a bearer header: what follows the scheme and a space, without blanks at its
    ends, if anything is left. -/
def bearer? (headers : Headers) : Option String :=
  match header? headers "authorization" with
  | none => none
  | some s =>
    let t := s.toList
    let scheme := t.takeWhile (· ≠ ' ')
    let token := Text.trim (t.drop (scheme.length + 1))
    if Text.lower scheme = "bearer".toList ∧ token ≠ [] then some (String.ofList token) else none

end Almanac.Service
