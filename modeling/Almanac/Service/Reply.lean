import Almanac.Phrase.Acceptance
import Almanac.Phrase.Interpretation
import Almanac.Phrase.Suggestion
import Almanac.Record.Report

/-!
# Replies

What the service says to a request, and how it is written: a status, headers, and a JSON body.
-/

namespace Almanac.Service

open Phrase Record

/-- The version of the service. -/
def version : String := "0.1.0"

/-- What became of a phrase that was to be scheduled. -/
inductive Answer where
  /-- Scheduled, at a time in UTC. -/
  | scheduled (utc : String) (words : String) (confidence : Nat)
  /-- Understood, and not acceptable. -/
  | unacceptable (why : String)
  | notUnderstood (why : Failure)
  deriving DecidableEq

/-- Why a request is not authenticated. -/
inductive Unauthenticated where
  | noToken
  | badToken
  deriving DecidableEq, Repr

/-- Why the service breaks down over a request. -/
inductive Breakdown where
  | calendar (e : Calendar.CalendarError)
  /-- The name of a time zone is that of a group of zones. -/
  | zoneGroup
  /-- The name of a time zone is too long for that of a file. -/
  | longZoneName
  /-- What was given is to be repeated, and holds a number that is infinite or no number. -/
  | unwritableNumber
  /-- What was given is to be repeated, and holds half of a surrogate pair. -/
  | unwritableText
  deriving DecidableEq, Repr

/-- What a reply holds. -/
inductive Content where
  | json (j : Json)
  | plain (s : String)

/-- What the service says to a request. -/
inductive Reply where
  | health
  | help
  /-- A page that describes the service. -/
  | page (c : Content)
  /-- The path is known without the slashes at its end. -/
  | redirected
  | notFound
  /-- The path is known, but only for other methods. -/
  | notAllowed (methods : List String)
  | unreadable
  | invalid (issues : List Issue)
  | limited (limit reset retryAfter : Int)
  | unauthenticated (why : Unauthenticated)
  | unknownZone (name : String)
  /-- The phrase could not be interpreted, through no fault of its own. -/
  | uninterpreted
  | brokenDown (why : Breakdown)
  | answered (a : Answer)

/-! ### Bodies -/

/-- The suggested phrases as data. -/
def suggestionsJson : Json :=
  .arr (suggestions.map .str)

/-- The examples as data. -/
def examplesJson : Json :=
  .arr (examples.map fun e => .obj [("input", .str e.phrase), ("description", .str e.meaning)])

/-- An answer as data. -/
def Answer.json : Answer → Json
  | .scheduled utc words confidence =>
    .obj
      [ ("success", .bool true)
      , ("datetime", .str utc)
      , ("interpretation", .str words)
      , ("confidence", .float (hundredths confidence)) ]
  | .unacceptable why =>
    .obj [("success", .bool false), ("error", .str why), ("suggestions", suggestionsJson)]
  | .notUnderstood why =>
    .obj
      [ ("success", .bool false)
      , ("interpretation", .str unparsed)
      , ("confidence", .float (hundredths (confidence none)))
      , ("error", .str why.message)
      , ("suggestions", suggestionsJson) ]

/-- What is said of a request that is not authenticated. -/
def Unauthenticated.message : Unauthenticated → String
  | .noToken  => "Authentication required"
  | .badToken => "Invalid or expired token"

/-- A body that says what is wrong. -/
def detail (j : Json) : Content :=
  .json (.obj [("detail", j)])

namespace Reply

/-- The body of a reply. -/
def content : Reply → Content
  | .health              => .json (.obj [("status", .str "healthy"), ("version", .str version)])
  | .help                =>
    .json (.obj [("suggestions", suggestionsJson), ("examples", examplesJson)])
  | .page c              => c
  | .redirected          => .plain ""
  | .notFound            => detail (.str "Not Found")
  | .notAllowed _        => detail (.str "Method Not Allowed")
  | .unreadable          => detail (.str "There was an error parsing the body")
  | .invalid issues      => detail (.arr (issues.map Issue.json))
  | .limited ..          => detail (.str "Rate limit exceeded")
  | .unauthenticated why => detail (.str why.message)
  | .unknownZone name    => detail (.str ("Unknown time zone: " ++ name))
  | .uninterpreted       => detail (.str "Failed to parse schedule")
  | .brokenDown _        => .plain "Internal Server Error"
  | .answered a          => .json a.json

/-- The status of a reply. -/
def status : Reply → Nat
  | .health            => 200
  | .help              => 200
  | .page _            => 200
  | .redirected        => 307
  | .notFound          => 404
  | .notAllowed _      => 405
  | .unreadable        => 400
  | .invalid _         => 422
  | .limited ..        => 429
  | .unauthenticated _ => 401
  | .unknownZone _     => 400
  | .uninterpreted     => 500
  | .brokenDown _      => 500
  | .answered _        => 200

/-- The headers of a reply. -/
def headers : Reply → List (String × String)
  | .notAllowed methods => [("allow", ", ".intercalate methods)]
  | .limited limit reset retryAfter =>
    [ ("x-ratelimit-limit", toString limit)
    , ("x-ratelimit-remaining", "0")
    , ("x-ratelimit-reset", toString reset)
    , ("retry-after", toString retryAfter) ]
  | .unauthenticated _ => [("www-authenticate", "Bearer")]
  | _ => []

end Reply

end Almanac.Service
