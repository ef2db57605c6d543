import Almanac.Limiter
import Almanac.Phrase.Interpretation
import Almanac.Service.Reply
import Almanac.Service.Request
import Almanac.Token.Access

/-!
# The service

The service answers one request after another; from one to the next it keeps only the state of its
limiter. A request to schedule a phrase passes, in this order, the reading of its body as JSON, the
limiter, authentication, the check of what the body asks for, and the choice of a time zone, and
the first of these that it does not pass answers it.
-/

namespace Almanac.Service

open Calendar Phrase Record

/-- Why a name has no zone. -/
inductive NoZone where
  | unknown
  /-- The name is that of a group of zones. -/
  | group
  /-- The name is too long for that of a file. -/
  | longName
  deriving DecidableEq, Repr

/-- A page that describes the service. -/
inductive Page where
  | schema
  | docs
  | signIn
  | reference
  deriving DecidableEq, Repr

/-- What the service is set up with: how tokens are signed, a user who makes every request in place
    of authentication, the zone database and the zone of requests that name none, and what stands on
    the pages that describe it. -/
structure Site where
  sign        : Token.Signer
  user        : Option String
  zones       : String → Except NoZone Zone
  defaultZone : String
  page        : Page → Content

/-! ### Scheduling a phrase -/

/-- Why a request is not authenticated, if it is not. A token has to name a user. -/
def unauthenticated? (site : Site) (r : Request) : Option Unauthenticated :=
  if site.user.isSome then none
  else
    match bearer? r.headers with
    | none       => some .noToken
    | some token =>
      match Token.user? site.sign token (Token.clockReading r.now) with
      | some user => if user.isBlank then some .badToken else none
      | none      => some .badToken

/-- The reply to a body with issues, which repeats what was given. -/
def invalidReply (issues : List Issue) : Reply :=
  let isUnwritableNumber : Json → Bool
    | .float x => !x.isFinite
    | _        => false
  let isUnwritableText : Json → Bool
    | .brokenStr => true
    | _          => false
  if issues.any fun i => i.given.any isUnwritableNumber then .brokenDown .unwritableNumber
  else if issues.any fun i => i.given.any isUnwritableText then .brokenDown .unwritableText
  else .invalid issues

/-- What becomes of an instant that a phrase names, at a reference instant in the same frame. -/
def schedule (category : Category) (instant : Instant) (words : String) (now : Instant) :
    Except CalendarError Answer := do
  match (← judge instant now).reason? with
  | some why => .ok (.unacceptable why)
  | none     => .ok (.scheduled (← instant.utcText) words (confidence (some category)))

/-- The reply to a phrase at a reference instant in the zone of the request. -/
def replyToPhrase (phrase : String) (now : Instant) : Reply :=
  match interpret Row.all phrase.toList now with
  | .error _            => .uninterpreted
  | .ok (.failed why)   => .answered (.notUnderstood why)
  | .ok (.resolved category instant words) =>
    match schedule category instant words now with
    | .ok a    => .answered a
    | .error e => .brokenDown (.calendar e)

/-- The reply to a name that has no zone. -/
def replyToNoZone (name : String) : NoZone → Reply
  | .unknown  => .unknownZone name
  | .group    => .brokenDown .zoneGroup
  | .longName => .brokenDown .longZoneName

/-- The reply to a phrase at a reference instant, in the zone with a name. -/
def replyInZone (site : Site) (name phrase : String) (now : Instant) : Reply :=
  match site.zones name with
  | .error why => replyToNoZone name why
  | .ok zone =>
    match now.inZone zone with
    | .ok now  => replyToPhrase phrase now
    | .error e => .brokenDown (.calendar e)

/-- The reply to what a body asks for. A zone whose name is broken is unknown, and the reply that
    names it cannot be written. -/
def replyToRequest (site : Site) (q : PhraseRequest) (now : Instant) : Reply :=
  match q.zone with
  | .unnamed    => replyInZone site site.defaultZone q.phrase now
  | .named name => replyInZone site name q.phrase now
  | .broken     => .brokenDown .unwritableText

/-- The reply to a request within its client's budget. -/
def replyWithin (site : Site) (r : Request) (body : Option Json) : Reply :=
  match unauthenticated? site r with
  | some why => .unauthenticated why
  | none =>
    match PhraseRequest.make body with
    | .error issues => invalidReply issues
    | .ok q         => replyToRequest site q r.now

/-- Answer a request to schedule a phrase. Only a request whose body can be read counts. -/
def submit (site : Site) (l : Limiter) (r : Request) : Limiter × Reply :=
  match readBody r.headers r.body with
  | .error .unreadable         => (l, .unreadable)
  | .error (.notJson position) =>
    (l, .invalid [⟨.notJson, [.name "body", .position position], .obj []⟩])
  | .ok body =>
    match l.consume (clientKey r.headers r.peer) r.clock with
    | (l, .rejected limit reset retryAfter) => (l, .limited limit reset retryAfter)
    | (l, .accepted _)                      => (l, replyWithin site r body)

/-! ### Requests -/

/-- The path of the endpoint that tells whether the service is up. -/
def healthPath : String := "/health"

/-- The path of the endpoint for phrases. -/
def phrasePath : String := "/schedule/parse"

/-- The path of a page. -/
def Page.path : Page → String
  | .schema    => "/openapi.json"
  | .docs      => "/docs"
  | .signIn    => "/docs/oauth2-redirect"
  | .reference => "/redoc"

/-- The pages. -/
def Page.all : List Page :=
  [.schema, .docs, .signIn, .reference]

/-- The methods by which a page is fetched. -/
def Page.methods : List String :=
  ["GET", "HEAD"]

/-- The paths at which there is something. -/
def knownPaths : List String :=
  healthPath :: phrasePath :: Page.all.map Page.path

/-- A path without the slashes at its end. -/
def withoutSlashes (path : String) : String :=
  String.ofList (Text.trimEnd (· == '/') path.toList)

/-- The reply to a request at any path but those of the two endpoints. -/
def replyElsewhere (site : Site) (r : Request) : Reply :=
  match Page.all.find? (·.path == r.path) with
  | some page => if r.method ∈ Page.methods then .page (site.page page) else .notAllowed Page.methods
  | none      => if withoutSlashes r.path ∈ knownPaths then .redirected else .notFound

/-- Answer a request. -/
def step (site : Site) (l : Limiter) (r : Request) : Limiter × Reply :=
  if r.path = healthPath then (l, if r.method = "GET" then .health else .notAllowed ["GET"])
  else if r.path = phrasePath then
    if r.method = "GET" then (l, .help)
    else if r.method = "POST" then submit site l r
    else (l, .notAllowed ["GET"])
  else (l, replyElsewhere site r)

/-- Answer requests one after another. -/
def run (site : Site) : Limiter → List Request → List Reply
  | _, []      => []
  | l, r :: rs =>
    let (l, reply) := step site l r
    reply :: run site l rs

@[simp] theorem run_nil (site : Site) (l : Limiter) : run site l [] = [] := rfl

end Almanac.Service
