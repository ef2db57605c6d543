import Almanac.Proofs.Calendar.Change
import Almanac.Proofs.Json.RoundTrip
import Almanac.Service.Endpoint

/-!
# What one request does

A request to schedule a phrase, with a body that can be read, is decided by the limiter: beyond the
budget it is turned away, and within it the reply depends on the limiter no more. Any other request
leaves the limiter as it is. A run is one step after another.
-/

namespace Almanac.Service

open Calendar Json Phrase Record Text

variable {site : Site} {l : Limiter} {r : Request} {body : Option Json} {reply : Reply} {a : Answer}
  {headers : Headers}

/-! ### Bodies that are written -/

/-- A body that is a number of one digit too many. -/
def longNumeral : String :=
  String.ofList (Json.text (.int (10 ^ maxDigits : Nat)))

/-- The client who makes a request. -/
def Request.client (r : Request) : String :=
  clientKey r.headers r.peer

/-- What is given in a request to schedule a phrase, if its body can be read. -/
def Request.given? (r : Request) : Option (Option Json) :=
  if r.path = phrasePath ∧ r.method = "POST" then (readBody r.headers r.body).toOption else none

/-- The reply to a request that the limiter has decided on. -/
def replyTo (site : Site) (r : Request) (body : Option Json) : Limiter.Decision → Reply
  | .rejected limit reset retryAfter => .limited limit reset retryAfter
  | .accepted _                      => replyWithin site r body

theorem given?_eq_some_iff :
    r.given? = some body ↔
      r.path = phrasePath ∧ r.method = "POST" ∧ readBody r.headers r.body = .ok body := by
  rw [Request.given?]
  split
  · next h =>
    cases readBody r.headers r.body with
    | ok b => simp [h, Except.toOption]
    | error e => simp [Except.toOption]
  · next h =>
    constructor
    · intro hn
      cases hn
    · rintro ⟨hp, hm, -⟩
      exact absurd ⟨hp, hm⟩ h

/-- A request to schedule a phrase is submitted. -/
theorem step_of_posted (site : Site) (l : Limiter) (hpath : r.path = phrasePath)
    (hmethod : r.method = "POST") : step site l r = submit site l r := by
  have hhealth : phrasePath ≠ healthPath := by decide
  have hget : "POST" ≠ "GET" := by decide
  rw [step, hpath, hmethod, if_neg hhealth, if_pos rfl, if_neg hget, if_pos rfl]

theorem step_of_given (h : r.given? = some body) :
    step site l r = ((l.consume r.client r.clock).1,
      replyTo site r body (l.consume r.client r.clock).2) := by
  obtain ⟨hp, hm, hbody⟩ := given?_eq_some_iff.mp h
  rw [step_of_posted site l hp hm, submit, hbody]
  simp only [Request.client]
  rcases l.consume (clientKey r.headers r.peer) r.clock with ⟨l', d⟩
  cases d with
  | accepted n => rfl
  | rejected limit reset retryAfter => rfl

/-- Whether a reply neither turns a request away nor answers a phrase. -/
def Reply.IsPlain (reply : Reply) : Prop :=
  reply.status ≠ 429 ∧ ∀ a, reply ≠ .answered a

theorem Reply.isPlain_of_status (h : reply.status ≠ 429) (h' : reply.status ≠ 200) :
    reply.IsPlain := by
  refine ⟨h, fun a ha => h' ?_⟩
  rw [ha]
  rfl

/-- A body that cannot be read is refused without the limiter. -/
theorem submit_of_unread {e : BodyError} (site : Site) (h : readBody r.headers r.body = .error e) :
    ∃ reply : Reply, reply.status ∈ [400, 422] ∧ ∀ l, submit site l r = (l, reply) := by
  cases e with
  | notJson position =>
    refine ⟨.invalid [⟨.notJson, [.name "body", .position position], .obj []⟩], ?_, ?_⟩
    · simp [Reply.status]
    · intro l
      rw [submit, h]
  | unreadable =>
    refine ⟨.unreadable, ?_, ?_⟩
    · simp [Reply.status]
    · intro l
      rw [submit, h]

theorem isPlain_replyElsewhere (site : Site) (r : Request) : (replyElsewhere site r).IsPlain := by
  rw [replyElsewhere]
  split
  · split <;> simp [Reply.IsPlain, Reply.status]
  · split <;> simp [Reply.IsPlain, Reply.status]

/-- A body that is not sent as JSON is not refused at once, whatever it holds. The request counts, and
    within the budget it asks for nothing once it is authenticated. -/
theorem step_of_not_json (site : Site) (l : Limiter) (hpath : r.path = phrasePath)
    (hmethod : r.method = "POST") (hjson : readsJson r.headers = false) (hbody : r.body ≠ "") :
    step site l r = ((l.consume r.client r.clock).1,
      match (l.consume r.client r.clock).2 with
      | .rejected limit reset retryAfter => .limited limit reset retryAfter
      | .accepted _ =>
        match unauthenticated? site r with
        | some why => .unauthenticated why
        | none     => .invalid [⟨.notObject, [.name "body"], .str r.body⟩]) := by
  have hnot : ¬readsJson r.headers = true := by
    rw [hjson]
    exact Bool.false_ne_true
  have hread : readBody r.headers r.body = .ok (some (.str r.body)) := by
    rw [readBody, if_neg hbody, if_neg hnot]
  rw [step_of_given (given?_eq_some_iff.mpr ⟨hpath, hmethod, hread⟩)]
  cases (l.consume r.client r.clock).2 with
  | rejected limit reset retryAfter => rfl
  | accepted n =>
    rw [replyTo, replyWithin]
    cases unauthenticated? site r with
    | some why => rfl
    | none => simp [PhraseRequest.make, invalidReply, Json.any]

example : readsJson [("Content-Type", "text/plain")] = false ∧
    readsJson [("Content-Type", "Application/Problem+JSON; charset=utf-8")] = true := by
  decide +kernel

/-- A request that does not count leaves the limiter as it is, which has no part in the reply. -/
theorem step_of_not_given (site : Site) (h : r.given? = none) :
    ∃ reply : Reply, reply.IsPlain ∧ ∀ l, step site l r = (l, reply) := by
  by_cases hhealth : r.path = healthPath
  · refine ⟨if r.method = "GET" then .health else .notAllowed ["GET"], ?_, ?_⟩
    · split <;> simp [Reply.IsPlain, Reply.status]
    · intro l
      rw [step, if_pos hhealth]
  by_cases hpath : r.path = phrasePath
  · by_cases hget : r.method = "GET"
    · refine ⟨.help, by simp [Reply.IsPlain, Reply.status], ?_⟩
      intro l
      rw [step, if_neg hhealth, if_pos hpath, if_pos hget]
    by_cases hpost : r.method = "POST"
    · rw [Request.given?, if_pos ⟨hpath, hpost⟩] at h
      cases hbody : readBody r.headers r.body with
      | ok body =>
        rw [hbody] at h
        cases h
      | error e =>
        obtain ⟨reply, hstatus, hreply⟩ := submit_of_unread site hbody
        have hplain : reply.IsPlain := by
          apply Reply.isPlain_of_status
          · exact ne_of_mem_of_not_mem hstatus (by decide)
          · exact ne_of_mem_of_not_mem hstatus (by decide)
        refine ⟨reply, hplain, ?_⟩
        intro l
        rw [step_of_posted site l hpath hpost, hreply]
    · refine ⟨.notAllowed ["GET"], by simp [Reply.IsPlain, Reply.status], ?_⟩
      intro l
      rw [step, if_neg hhealth, if_pos hpath, if_neg hget, if_neg hpost]
  · refine ⟨replyElsewhere site r, isPlain_replyElsewhere site r, ?_⟩
    intro l
    rw [step, if_neg hhealth, if_neg hpath]

/-! ### Replies within the budget -/

theorem status_invalidReply (issues : List Issue) : (invalidReply issues).status ∈ [422, 500] := by
  rw [invalidReply]
  split
  · simp [Reply.status]
  · split <;> simp [Reply.status]

theorem status_replyToNoZone (name : String) (why : NoZone) :
    (replyToNoZone name why).status ∈ [400, 500] := by
  cases why <;> simp [replyToNoZone, Reply.status]

theorem replyInZone_cases (site : Site) (name phrase : String) (now : Instant) :
    (∃ a, replyInZone site name phrase now = .answered a) ∨
      (replyInZone site name phrase now).status ∈ [400, 500] := by
  rw [replyInZone]
  split
  · exact .inr (status_replyToNoZone name _)
  · split
    · rw [replyToPhrase]
      split
      · simp [Reply.status]
      · simp
      · split <;> simp [Reply.status]
    · simp [Reply.status]

/-- A reply within the budget answers the phrase, or it has the status of an error, though not that of
    a request that is turned away. -/
theorem replyWithin_cases (site : Site) (r : Request) (body : Option Json) :
    (∃ a, replyWithin site r body = .answered a) ∨
      (replyWithin site r body).status ∈ [400, 401, 422, 500] := by
  have hsubset : [400, 500] ⊆ [400, 401, 422, 500] := by decide
  have hzone (name phrase : String) : (∃ a, replyInZone site name phrase r.now = .answered a) ∨
      (replyInZone site name phrase r.now).status ∈ [400, 401, 422, 500] :=
    (replyInZone_cases site name phrase r.now).imp_right fun h => hsubset h
  rw [replyWithin]
  split
  · simp [Reply.status]
  · split
    · have hsubset : [422, 500] ⊆ [400, 401, 422, 500] := by decide
      exact .inr (hsubset (status_invalidReply _))
    · rw [replyToRequest]
      split
      · exact hzone _ _
      · exact hzone _ _
      · simp [Reply.status]

/-- No reply within the budget turns the request away. -/
theorem status_replyWithin_ne (site : Site) (r : Request) (body : Option Json) :
    (replyWithin site r body).status ≠ 429 := by
  rcases replyWithin_cases site r body with ⟨a, ha⟩ | hstatus
  · simp [ha, Reply.status]
  · exact ne_of_mem_of_not_mem hstatus (by decide)

/-- A request to schedule a phrase whose reply has the status of success is answered. -/
theorem exists_answered_of_status (hpath : r.path = phrasePath) (hmethod : r.method = "POST")
    (h : (step site l r).2.status = 200) : ∃ a, (step site l r).2 = .answered a := by
  cases hbody : readBody r.headers r.body with
  | error e =>
    obtain ⟨reply, hstatus, hreply⟩ := submit_of_unread site hbody
    rw [step_of_posted site l hpath hmethod, hreply] at h
    exact absurd h (ne_of_mem_of_not_mem hstatus (by decide))
  | ok body =>
    have hgiven := given?_eq_some_iff.mpr ⟨hpath, hmethod, hbody⟩
    rw [step_of_given hgiven] at h ⊢
    cases hd : (l.consume r.client r.clock).2 with
    | rejected limit reset retryAfter =>
      rw [hd] at h
      cases h
    | accepted remaining =>
      rw [hd] at h
      rw [replyTo]
      rcases replyWithin_cases site r body with ha | hstatus
      · exact ha
      · exact absurd h (ne_of_mem_of_not_mem hstatus (by decide))

/-! ### Runs with their replies -/

/-- The limiter after a run. -/
def stateAfter (site : Site) (l : Limiter) (rs : List Request) : Limiter :=
  rs.foldl (fun l r => (step site l r).1) l

/-- The requests of a run with their replies. -/
def transcript (site : Site) (l : Limiter) (rs : List Request) : List (Request × Reply) :=
  rs.zip (run site l rs)

theorem transcript_cons (site : Site) (l : Limiter) (r : Request) (rs : List Request) :
    transcript site l (r :: rs) =
      (r, (step site l r).2) :: transcript site (step site l r).1 rs := rfl

/-- A zone database of three zones. -/
def threeZones (name : String) : Except NoZone Zone :=
  if name = "UTC" then .ok ⟨"UTC", 0, []⟩
  else if name = "Asia/Tokyo" then .ok ⟨"Asia/Tokyo", 9 * hour, []⟩
  else if name = "Europe/Paris" then .ok .paris
  else .error .unknown

/-- A site where requests are authenticated, with nothing on its pages. -/
def guarded : Site :=
  ⟨id, none, threeZones, "UTC", fun _ => .plain ""⟩

/-- A request to schedule a phrase, without credentials. -/
def anonymous (body : String) (clock : Rat) : Request :=
  ⟨"POST", phrasePath, [], some "10.0.0.1", body, ⟨⟨0, by decide⟩, .fixed 0, false⟩, clock⟩

end Almanac.Service
