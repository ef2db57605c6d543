import Almanac.Calendar.Instant
import Almanac.Json.Encoding
import Almanac.Json.Writer
import Almanac.Token.Base64Url
import Almanac.Token.Sha256

/-!
# Access tokens

A token names a user for a day. It is a header, a payload and a signature in base64, set apart by
points; header and payload are JSON objects, and the signature is made over the text of both. A
token is valid at a moment when all three parts can be read, its signature is right, and the
moment lies in its lifetime.
-/

namespace Almanac.Token

open Calendar Text

/-- How the text of header and payload is signed. -/
abbrev Signer := List UInt8 → List UInt8

/-- The signer with a secret. -/
def hmacSigner (secret : String) : Signer :=
  Sha256.hmac (utf8 secret.toList)

/-- The name of the signature algorithm. -/
def algorithm : String := "HS256"

/-- How long a token lives. -/
def lifetime : Nat := 24 * hour

/-! ### Issuing -/

/-- The first moment of 1970, counted from the start of year 1. -/
def epoch : Nat := 719162 * day

/-- The whole seconds from the first moment of 1970 to an instant, rounded down. A floating time is
    read as UTC. -/
def epochSeconds (i : Instant) : Except CalendarError Int :=
  match Wall.ofTicks? (i.utcTicks?.getD i.wall.ticks) with
  | some w => .ok (((w.ticks : Int) - epoch) / second)
  | none   => .error .overflow

/-- A part of a token. -/
def segment (j : Json) : List Char :=
  encode64 (utf8 j.text)

/-- The header of the tokens that are issued. -/
def header : Json :=
  .obj [("alg", .str algorithm), ("typ", .str "JWT")]

/-- The token with a payload. -/
def signed (sign : Signer) (payload : Json) : String :=
  let text := segment header ++ '.' :: segment payload
  String.ofList (text ++ '.' :: encode64 (sign (utf8 text)))

/-- The payload of a token for a user: whom it names, when it ends and when it was issued. -/
def payload (user : String) (ends issued : Int) : Json :=
  .obj [("sub", .str user), ("exp", .int ends), ("iat", .int issued)]

/-- Issue a token for a user. -/
def issue (sign : Signer) (user : String) (issuedAt : Instant) : Except CalendarError String := do
  let ends ← epochSeconds (← issuedAt.shift lifetime)
  let issued ← epochSeconds issuedAt
  .ok (signed sign (payload user ends issued))

/-! ### Verifying -/

/-- Whether the names of critical extensions are all known, and given in the header. -/
def criticalAreKnown (header : Json) (names : List Json) : Bool :=
  !names.isEmpty && names.all fun j =>
    match j with
    | .str s => s == "b64" && (header.get? s).isSome
    | _      => false

/-- Whether a header is that of a token to be verified: it names the algorithm, its key has a name
    if any, it asks for no unknown extension, and its payload is in base64. -/
def headerIsValid (header : Json) : Bool :=
  (match header with
    | .obj _ => true
    | _      => false) &&
  (match header.get? "kid" with
    | none   => true
    | some j => j.isString) &&
  (match header.get? "crit" with
    | none              => true
    | some (.arr names) => criticalAreKnown header names
    | some _            => false) &&
  (match header.get? "b64" with
    | some (.bool b) => b
    | _              => true) &&
  (match header.get? "alg" with
    | some (.str s) => s == algorithm
    | _             => false)

/-- The whole number that a claim about time gives: a number without its fraction, or a numeral. -/
def claimedTime? : Json → Option Int
  | .int n   => some n
  | .float x => x.truncate?
  | .bool b  => some (if b then 1 else 0)
  | .str s   => (readInteger s.toList).toOption
  | _        => none

/-- Whether a claim about time, if it is made, satisfies a condition. -/
def timeHolds (claims : Json) (name : String) (p : Int → Bool) : Bool :=
  match claims.get? name with
  | none   => true
  | some j => (claimedTime? j).any p

/-- Whether a claim, if it is made, is a string. -/
def isTextIfGiven (claims : Json) (name : String) : Bool :=
  match claims.get? name with
  | none   => true
  | some j => j.isString

/-- Whether the claims of a payload hold at a moment, given in seconds since the start of 1970. A
    token for a named audience is for someone else. -/
def claimsHold (claims : Json) (now : Rat) : Bool :=
  timeHolds claims "iat" (fun t => (t : Rat) ≤ now) &&
  timeHolds claims "nbf" (fun t => (t : Rat) ≤ now) &&
  timeHolds claims "exp" (fun t => now < (t : Rat)) &&
  ((claims.get? "aud").getD .null).isBlank &&
  isTextIfGiven claims "sub" &&
  isTextIfGiven claims "jti"

/-- A text cut at its first point. -/
def cutAtPoint? : List UInt8 → Option (List UInt8 × List UInt8)
  | []     => none
  | b :: r =>
    if b = 46 then some ([], r)
    else (cutAtPoint? r).map fun (s, t) => (b :: s, t)

/-- A text cut at its last point. -/
def cutAtLastPoint? (t : List UInt8) : Option (List UInt8 × List UInt8) :=
  (cutAtPoint? t.reverse).map fun (s, r) => (r.reverse, s.reverse)

/-- The JSON value that a part of a token holds. -/
def segmentJson? (t : List UInt8) : Option Json := do
  let text ← Json.decode? (← decode64? t)
  (Json.read text).toOption

/-- The claims of a token, if it is valid at a moment. -/
def verify? (sign : Signer) (token : String) (now : Rat) :
    Option (List Json.Member) := do
  let (text, signature) ← cutAtLastPoint? (utf8 token.toList)
  let (header, payload) ← cutAtPoint? text
  let header ← segmentJson? header
  let signature ← decode64? signature
  if !headerIsValid header || signature != sign text then none
  else
    match ← segmentJson? payload with
    | .obj claims => if claimsHold (.obj claims) now then some claims else none
    | _           => none

/-- The user that the claims of a token name. It is a string if they hold. -/
def userOf? (claims : List Json.Member) : Option Json :=
  claims.lookup (some "sub")

/-- The user that a token names, if it is valid at a moment. -/
def user? (sign : Signer) (token : String) (now : Rat) : Option Json :=
  (verify? sign token now).bind userOf?

/-- The moment that a clock with a binary number for seconds shows at an instant. -/
def clockReading (i : Instant) : Rat :=
  let ticks : Int := i.utcTicks?.getD i.wall.ticks - epoch
  ((Decimal.Binary64.ofRat (mkRat ticks second)).toRat?).getD 0

end Almanac.Token
