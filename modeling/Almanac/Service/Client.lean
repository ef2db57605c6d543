import Almanac.Text.Blank

/-!
# Who makes a request

A client is told apart by the address it was forwarded for, by its real address as a proxy reports
it, or by the address it connects from.
-/

namespace Almanac.Service

open Text

/-- Names and values of headers, in the order in which they were sent. -/
abbrev Headers := List (String × String)

/-- The first value of a header. The case of its name does not matter. -/
def header? (headers : Headers) (name : String) : Option String :=
  (headers.find? fun h => h.1.toLower == name).map (·.2)

/-- A text without blanks at its ends. -/
def trimmed (s : String) : String :=
  String.ofList (trim s.toList)

/-- The first of some addresses set apart by commas. -/
def firstHop (s : String) : String :=
  String.ofList (trim (s.toList.takeWhile (· ≠ ',')))

/-- The key by which a client is known. A header counts when it is not empty. -/
def clientKey (headers : Headers) (peer : Option String) : String :=
  match (header? headers "x-forwarded-for").filter (· ≠ "") with
  | some s => firstHop s
  | none =>
    match (header? headers "x-real-ip").filter (· ≠ "") with
    | some s => trimmed s
    | none   => (peer.filter (· ≠ "")).getD "unknown"

end Almanac.Service
