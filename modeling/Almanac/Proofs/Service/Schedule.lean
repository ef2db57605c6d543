import Almanac.Proofs.Calendar.Shown
import Almanac.Proofs.Calendar.UtcText
import Almanac.Proofs.Phrase.Interpretation
import Almanac.Proofs.Phrase.Window
import Almanac.Proofs.Service.Step

/-!
# When scheduled times lie in the future

A time is scheduled only if the wall clock of the reference comes before it. In UTC the time then
comes after the reference as well, save when clocks have been put back: a time that is shown for
the second time at the reference may be scheduled as it is shown for the first.
-/

namespace Almanac.Service

open Calendar Phrase

variable {site : Site} {l : Limiter} {r : Request} {a : Answer} {reply : Reply} {q : PhraseRequest}
  {name phrase utc words : String} {trust : Nat} {now here i : Instant} {zone : Zone}

/-! ### The way to an answer -/

/-- What a reply says of a phrase, if it answers one. -/
def Reply.answer? : Reply → Option Answer
  | .answered a => some a
  | _           => none

theorem answer?_eq_some_iff : reply.answer? = some a ↔ reply = .answered a := by
  cases reply <;> simp [Reply.answer?]

/-- What a request asks for in its body. -/
def Request.asked? (r : Request) : Option PhraseRequest :=
  match readBody r.headers r.body with
  | .ok body => (PhraseRequest.make body).toOption
  | .error _ => none

theorem asked?_eq_some_iff :
    r.asked? = some q ↔
      ∃ body, readBody r.headers r.body = .ok body ∧ PhraseRequest.make body = .ok q := by
  rw [Request.asked?]
  cases readBody r.headers r.body with
  | error e => simp
  | ok body => cases hmake : PhraseRequest.make body <;> simp [hmake, Except.toOption]

/-- The zone that a body asks for, or that of requests that name none. -/
def zoneOf? (site : Site) (q : PhraseRequest) : Option Zone :=
  match q.zone with
  | .unnamed    => (site.zones site.defaultZone).toOption
  | .named name => (site.zones name).toOption
  | .broken     => none

/-- Whether all zones of the zone database are regular. -/
def Site.HasRegularZones (site : Site) : Prop :=
  ∀ name zone, site.zones name = .ok zone → zone.IsRegular

theorem toOption_zones_eq_some_iff :
    (site.zones name).toOption = some zone ↔ site.zones name = .ok zone := by
  cases site.zones name <;> simp [Except.toOption]

theorem Site.HasRegularZones.isRegular (hsite : site.HasRegularZones)
    (h : zoneOf? site q = some zone) : zone.IsRegular := by
  rw [zoneOf?] at h
  split at h
  · exact hsite _ _ (toOption_zones_eq_some_iff.mp h)
  · exact hsite _ _ (toOption_zones_eq_some_iff.mp h)
  · cases h

theorem exists_replyToPhrase_of_replyInZone (h : replyInZone site name phrase now = .answered a) :
    ∃ zone, (site.zones name).toOption = some zone ∧
      ∃ here, now.inZone zone = .ok here ∧ replyToPhrase phrase here = .answered a := by
  rw [replyInZone] at h
  split at h
  · next why _ => cases why <;> cases h
  · next zone hzone =>
    split at h
    · next here hhere => exact ⟨zone, toOption_zones_eq_some_iff.mpr hzone, here, hhere, h⟩
    · cases h

theorem exists_replyToPhrase_of_replyToRequest
    (h : replyToRequest site q now = .answered a) :
    ∃ zone, zoneOf? site q = some zone ∧
      ∃ here, now.inZone zone = .ok here ∧ replyToPhrase q.phrase here = .answered a := by
  rw [replyToRequest] at h
  rw [zoneOf?]
  cases hz : q.zone with
  | unnamed =>
    rw [hz] at h
    exact exists_replyToPhrase_of_replyInZone h
  | named name =>
    rw [hz] at h
    exact exists_replyToPhrase_of_replyInZone h
  | broken =>
    rw [hz] at h
    cases h

theorem invalidReply_ne_answered (issues : List Record.Issue) (a : Answer) :
    invalidReply issues ≠ .answered a := by
  rw [invalidReply]
  split
  · simp
  · split <;> simp

theorem replyToRequest_eq (hzone : zoneOf? site q = some zone) (hhere : now.inZone zone = .ok here) :
    replyToRequest site q now = replyToPhrase q.phrase here := by
  rw [zoneOf?] at hzone
  rw [replyToRequest]
  cases hz : q.zone with
  | unnamed =>
    rw [hz] at hzone
    simp only [replyInZone, toOption_zones_eq_some_iff.mp hzone, hhere]
  | named name =>
    rw [hz] at hzone
    simp only [replyInZone, toOption_zones_eq_some_iff.mp hzone, hhere]
  | broken =>
    rw [hz] at hzone
    cases hzone

/-- Whether a request asks to schedule a phrase and passes every check on the way to it: the reference
    can be shown in the zone that it asks for. -/
structure Asks (site : Site) (l : Limiter) (r : Request) (q : PhraseRequest) (here : Instant) :
    Prop where
  posted        : r.path = phrasePath ∧ r.method = "POST"
  asked         : r.asked? = some q
  within        : ∃ remaining, (l.consume r.client r.clock).2 = .accepted remaining
  authenticated : unauthenticated? site r = none
  inZone        : ∃ zone, zoneOf? site q = some zone ∧ r.now.inZone zone = .ok here

/-- The reply to a request that passes all checks is that to its phrase. -/
theorem Asks.step_eq (h : Asks site l r q here) :
    (step site l r).2 = replyToPhrase q.phrase here := by
  obtain ⟨body, hbody, hmake⟩ := asked?_eq_some_iff.mp h.asked
  obtain ⟨remaining, hd⟩ := h.within
  obtain ⟨zone, hzone, hhere⟩ := h.inZone
  have hgiven := given?_eq_some_iff.mpr ⟨h.posted.1, h.posted.2, hbody⟩
  simp only [step_of_given hgiven, hd, replyTo, replyWithin, h.authenticated, hmake]
  exact replyToRequest_eq hzone hhere

/-- Only a request that passes all checks is answered. -/
theorem exists_asks_of_step (h : (step site l r).2 = .answered a) :
    ∃ q here, Asks site l r q here ∧ replyToPhrase q.phrase here = .answered a := by
  cases hg : r.given? with
  | none =>
    obtain ⟨reply, hplain, hstep⟩ := step_of_not_given site hg
    rw [hstep] at h
    exact absurd h (hplain.2 a)
  | some body =>
    obtain ⟨hpath, hmethod, hbody⟩ := given?_eq_some_iff.mp hg
    rw [step_of_given hg] at h
    cases hd : (l.consume r.client r.clock).2 with
    | rejected limit reset retryAfter =>
      rw [hd] at h
      cases h
    | accepted remaining =>
      rw [hd, replyTo, replyWithin] at h
      split at h
      · cases h
      · next hauth =>
        split at h
        · exact absurd h (invalidReply_ne_answered _ a)
        · next q hq =>
          obtain ⟨zone, hzone, here, hhere, hreply⟩ := exists_replyToPhrase_of_replyToRequest h
          have hasked := asked?_eq_some_iff.mpr ⟨body, hbody, hq⟩
          exact ⟨q, here, ⟨⟨hpath, hmethod⟩, hasked, ⟨remaining, hd⟩, hauth, zone, hzone, hhere⟩,
            hreply⟩

/-- A request that is answered asks for a phrase in its body, in a zone that has a name, and the
    phrase is answered at the reference in that zone. -/
theorem exists_replyToPhrase_of_step (h : (step site l r).2 = .answered a) :
    ∃ q zone here, r.asked? = some q ∧ zoneOf? site q = some zone ∧ r.now.inZone zone = .ok here ∧
      replyToPhrase q.phrase here = .answered a := by
  obtain ⟨q, here, hasks, hreply⟩ := exists_asks_of_step h
  obtain ⟨zone, hzone, hhere⟩ := hasks.inZone
  exact ⟨q, zone, here, hasks.asked, hzone, hhere, hreply⟩

/-! ### What is found about a phrase -/

/-- What is found about a phrase at a reference, step by step, with the reply that it leads to. -/
inductive Finds (phrase : String) (now : Instant) : Reply → Prop
  | uninterpreted {e : Fault} (hi : interpret Row.all phrase.toList now = .error e) :
    Finds phrase now .uninterpreted
  | notUnderstood {why : Failure} (hi : interpret Row.all phrase.toList now = .ok (.failed why)) :
    Finds phrase now (.answered (.notUnderstood why))
  | unjudged {category : Category} {i : Instant} {words : String} {e : CalendarError}
    (hi : interpret Row.all phrase.toList now = .ok (.resolved category i words))
    (hj : judge i now = .error e) : Finds phrase now (.brokenDown (.calendar e))
  | unacceptable {category : Category} {i : Instant} {words : String} {v : Verdict} {why : String}
    (hi : interpret Row.all phrase.toList now = .ok (.resolved category i words))
    (hj : judge i now = .ok v) (hv : v.reason? = some why) :
    Finds phrase now (.answered (.unacceptable why))
  | unwritten {category : Category} {i : Instant} {words : String} {e : CalendarError}
    (hi : interpret Row.all phrase.toList now = .ok (.resolved category i words))
    (hj : judge i now = .ok .accepted) (hu : i.utcText = .error e) :
    Finds phrase now (.brokenDown (.calendar e))
  | scheduled {category : Category} {i : Instant} {words utc : String}
    (hi : interpret Row.all phrase.toList now = .ok (.resolved category i words))
    (hj : judge i now = .ok .accepted) (hu : i.utcText = .ok utc) :
    Finds phrase now (.answered (.scheduled utc words (confidence (some category))))

theorem finds_replyToPhrase (phrase : String) (now : Instant) :
    Finds phrase now (replyToPhrase phrase now) := by
  rw [replyToPhrase]
  split
  · next e hi => exact .uninterpreted hi
  · next why hi => exact .notUnderstood hi
  · next category i words hi =>
    rw [schedule]
    cases hj : judge i now with
    | error e => exact .unjudged hi hj
    | ok v =>
      cases hv : v.reason? with
      | some why =>
        simp only [bind, Except.bind, hv]
        exact .unacceptable hi hj hv
      | none =>
        obtain rfl := Verdict.reason?_eq_none_iff.mp hv
        cases hu : i.utcText with
        | error e => exact .unwritten hi hj hu
        | ok utc => exact .scheduled hi hj hu

/-- What is found determines the reply. -/
theorem Finds.eq (h : Finds phrase now reply) : replyToPhrase phrase now = reply := by
  cases h with
  | uninterpreted hi => simp only [replyToPhrase, hi]
  | notUnderstood hi => simp only [replyToPhrase, hi]
  | unjudged hi hj => simp only [replyToPhrase, hi, schedule, hj, bind, Except.bind]
  | unacceptable hi hj hv => simp only [replyToPhrase, hi, schedule, hj, bind, Except.bind, hv]
  | unwritten hi hj hu =>
    simp only [replyToPhrase, hi, schedule, hj, bind, Except.bind, Verdict.reason?, hu]
  | scheduled hi hj hu =>
    simp only [replyToPhrase, hi, schedule, hj, bind, Except.bind, Verdict.reason?, hu]

theorem finds_iff : Finds phrase now reply ↔ replyToPhrase phrase now = reply := by
  constructor
  · exact Finds.eq
  · rintro rfl
    exact finds_replyToPhrase phrase now

/-! ### The way to a scheduled time -/

/-- The time in UTC that a reply gives, if it schedules a phrase. -/
def Reply.scheduledAt? : Reply → Option String
  | .answered (.scheduled utc _ _) => some utc
  | _                              => none

/-- What has been found about a phrase that is scheduled, for a reference in a zone: the instant
    that it names is acceptable, and written in UTC. -/
structure Schedules (phrase : String) (now i : Instant) (utc : String) : Prop where
  resolved : ∃ category words,
    interpret Row.all phrase.toList now = .ok (.resolved category i words)
  accepted : judge i now = .ok .accepted
  written  : i.utcText = .ok utc

theorem exists_answered_of_scheduledAt? (h : reply.scheduledAt? = some utc) :
    ∃ words trust, reply = .answered (.scheduled utc words trust) := by
  unfold Reply.scheduledAt? at h
  split at h
  · next words trust =>
    obtain rfl := Option.some.inj h
    exact ⟨words, trust, rfl⟩
  · cases h

/-- A phrase is scheduled in the words in which its instant is told back. -/
theorem exists_interpret_of_replyToPhrase
    (h : replyToPhrase phrase now = .answered (.scheduled utc words trust)) :
    ∃ category i, interpret Row.all phrase.toList now = .ok (.resolved category i words) ∧
      Schedules phrase now i utc := by
  cases finds_iff.mpr h with
  | scheduled hi hj hu => exact ⟨_, _, hi, ⟨_, _, hi⟩, hj, hu⟩

/-- A request that is answered with a scheduled time asks for it in its body, in a zone that has a
    name. -/
theorem exists_schedules_of_step (h : (step site l r).2.scheduledAt? = some utc) :
    ∃ q zone here i, r.asked? = some q ∧ zoneOf? site q = some zone ∧
      r.now.inZone zone = .ok here ∧ Schedules q.phrase here i utc := by
  obtain ⟨words, trust, ha⟩ := exists_answered_of_scheduledAt? h
  obtain ⟨q, zone, here, hq, hzone, hhere, hreply⟩ := exists_replyToPhrase_of_step ha
  obtain ⟨-, i, -, hs⟩ := exists_interpret_of_replyToPhrase hreply
  exact ⟨q, zone, here, i, hq, hzone, hhere, hs⟩

/-! ### Before and after in UTC -/

/-- An acceptable time comes after the reference on the wall clock. -/
theorem lt_of_judge (hf : i.frame = now.frame) (h : judge i now = .ok .accepted) :
    now.wall < i.wall := by
  rw [judge_eq_judgeAt hf, judgeAt_eq_accepted_iff] at h
  exact h.1

/-- The time that is written is the one that the instant shows in UTC. -/
theorem exists_utcWall_of_utcText (h : i.utcText = .ok utc) :
    ∃ w, i.utcWall = .ok w ∧ Instant.read? utc = some ⟨w, .fixed 0, false⟩ := by
  obtain ⟨w, hw, rfl⟩ := Instant.utcText_eq_ok_iff.mp h
  exact ⟨w, hw, Instant.read?_text w⟩

/-- Whether an instant is taken back behind a reference in its zone: clocks have been put back, the
    reference is shown for the second time, and so are all times up to the instant, which is meant
    as it is shown for the first time. -/
def TakenBack (zone : Zone) (here i : Instant) : Prop :=
  here.later = true ∧ i.later = false ∧ zone.RepeatsThrough here.wall i.wall

/-- The time in UTC with which a request is answered comes after its reference, both read in UTC,
    exactly if the instant that the phrase names in the zone is not taken back behind the
    reference. -/
theorem scheduled_after_reference_iff (hsite : site.HasRegularZones) (hnow : r.now.IsShown)
    (h : (step site l r).2.scheduledAt? = some utc) :
    ∃ q zone here i reference scheduled, r.asked? = some q ∧ zoneOf? site q = some zone ∧
      r.now.inZone zone = .ok here ∧ Schedules q.phrase here i utc ∧
        r.now.utcWall = .ok reference ∧ Instant.read? utc = some ⟨scheduled, .fixed 0, false⟩ ∧
          (reference < scheduled ↔ ¬TakenBack zone here i) := by
  obtain ⟨q, zone, here, i, hq, hzone, hhere, hs⟩ := exists_schedules_of_step h
  have hz := hsite.isRegular hzone
  obtain ⟨hframe, reference, href, hshows⟩ := Instant.shows_of_inZone hz hnow hhere
  obtain ⟨category, words, hi⟩ := hs.resolved
  obtain ⟨hf, hlater⟩ := frame_eq_of_interpret hi
  obtain ⟨scheduled, hutc, hread⟩ := exists_utcWall_of_utcText hs.written
  rw [hframe] at hf
  have hticks := (Instant.utcWall_eq_ok_iff hf).mp hutc
  have hlt := lt_of_judge (hf.trans hframe.symm) hs.accepted
  have hiff := Zone.lt_iff_of_shows hz hshows hlt hlater
  refine ⟨q, zone, here, i, reference, scheduled, hq, hzone, hhere, hs, href, hread, ?_⟩
  rw [TakenBack, ← hiff, ← hticks, Int.ofNat_lt, Wall.lt_def]

/-- A service with a user of its own. -/
def openSite : Site :=
  { guarded with sign := fun _ => [], user := some "user" }

theorem hasRegularZones_openSite : openSite.HasRegularZones := by
  intro name zone h
  have hzones : threeZones name = .ok zone := h
  unfold threeZones at hzones
  split at hzones
  · obtain rfl := Except.ok.inj hzones
    decide +kernel
  · split at hzones
    · obtain rfl := Except.ok.inj hzones
      decide +kernel
    · split at hzones
      · obtain rfl := Except.ok.inj hzones
        exact Zone.isRegular_paris
      · cases hzones

/-- A limiter that has seen nothing yet. -/
def freshLimiter : Limiter :=
  ⟨100, 900, [], 0⟩

/-- A time of day, in UTC, of the day on which clocks in Europe are put back at one in the night. -/
def changeDay (c : Clock) : Instant :=
  ⟨Wall.on (.ofNumbers 2024 10 27 (by decide)) c.time c.time_lt, .fixed 0, false⟩

/-- A request for a quarter of an hour from a reference, in Paris. -/
def parisRequest (now : Instant) : Request :=
  { method := "POST", path := phrasePath, headers := [], peer := none
    body := "\x7b\"input\":\"in 15 minutes\",\"timezone\":\"Europe/Paris\"\x7d"
    now := now
    clock := 0 }

/-- Half an hour before clocks are put back. -/
def beforeChange : Instant :=
  changeDay ⟨0, 30, by decide, by decide⟩

/-- Half an hour after clocks are put back. -/
def afterChange : Instant :=
  changeDay ⟨1, 30, by decide, by decide⟩

/-- Before clocks are put back, a quarter of an hour leads ahead in UTC. -/
theorem scheduled_before_change :
    openSite.HasRegularZones ∧ (parisRequest beforeChange).now.IsShown ∧
      (step openSite freshLimiter (parisRequest beforeChange)).2.scheduledAt? =
        some "2024-10-27T00:45:00Z" ∧
      ∃ q zone here i reference scheduled, (parisRequest beforeChange).asked? = some q ∧
        zoneOf? openSite q = some zone ∧ beforeChange.utcWall = .ok reference ∧
          Instant.read? "2024-10-27T00:45:00Z" = some ⟨scheduled, .fixed 0, false⟩ ∧
            (reference < scheduled ↔ ¬TakenBack zone here i) := by
  have hnow : (parisRequest beforeChange).now.IsShown := by
    intro z hz
    cases hz
  have h : (step openSite freshLimiter (parisRequest beforeChange)).2.scheduledAt? =
      some "2024-10-27T00:45:00Z" := by decide +kernel
  obtain ⟨q, zone, here, i, reference, scheduled, hq, hzone, -, -, href, hread, hiff⟩ :=
    scheduled_after_reference_iff hasRegularZones_openSite hnow h
  exact ⟨hasRegularZones_openSite, hnow, h, q, zone, here, i, reference, scheduled, hq, hzone, href,
    hread, hiff⟩

/-- After clocks are put back, it leads to the same time, which has passed. -/
theorem scheduled_after_change :
    (step openSite freshLimiter (parisRequest afterChange)).2.scheduledAt? =
        some "2024-10-27T00:45:00Z" ∧
      afterChange.utcWall = .ok afterChange.wall ∧
        ∃ scheduled, Instant.read? "2024-10-27T00:45:00Z" = some ⟨scheduled, .fixed 0, false⟩ ∧
          scheduled < afterChange.wall := by
  refine ⟨by decide +kernel, by decide +kernel,
    (changeDay ⟨0, 45, by decide, by decide⟩).wall, by decide +kernel, by decide +kernel⟩

end Almanac.Service
