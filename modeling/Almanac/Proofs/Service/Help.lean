import Almanac.Proofs.Phrase.Suggested
import Almanac.Proofs.Service.Answer

/-!
# Where the help leads

A phrase that is offered can be sent back as it is. It is then understood, and answered with a scheduled
time; only the phrase that names a date is good for no more than a year.
-/

namespace Almanac.Service

open Calendar Phrase

variable {site : Site} {l : Limiter} {r : Request} {q : PhraseRequest} {p : String} {here : Instant}

/-- What is acceptable for a request can be written in UTC, if a day is left after it. -/
theorem exists_utcText_of_judge {i : Instant} {category : Category} {words : String}
    (hsite : site.HasRegularZones) (hnow : r.now.IsShown) (hasks : Asks site l r q here)
    (hi : interpret Row.all q.phrase.toList here = .ok (.resolved category i words))
    (hj : judge i here = .ok .accepted) (hroom : i.wall.dayIndex + 2 ≤ dayCount) :
    ∃ utc, i.utcText = .ok utc := by
  obtain ⟨zone, hzone, hhere⟩ := hasks.inZone
  have hz := hsite.isRegular hzone
  obtain ⟨hframe, utc, -, hshows⟩ := Instant.shows_of_inZone hz hnow hhere
  obtain ⟨hf, hlater⟩ := frame_eq_of_interpret hi
  obtain ⟨w, hw⟩ := Instant.exists_utcWall_of_lt hz hshows (hf.trans hframe) (lt_of_judge hf hj)
    hlater hroom
  exact ⟨_, Instant.utcText_eq_ok_iff.mpr ⟨w, hw, rfl⟩⟩

/-- Before the last year of the calendar, an offered phrase is understood. What it names is acceptable,
    save for the phrase that names a date, which is too far ahead until a year before that date, and
    has passed from then on. So a request for an offered phrase that passes every check is answered
    with a scheduled time, or with the reason why the date is not acceptable. -/
theorem offered_phrase_is_answered (hp : p ∈ offeredPhrases) :
    (∀ now : Instant, now.wall.date.year ≤ 9998 →
      ∃ category i words, interpret Row.all p.toList now = .ok (.resolved category i words) ∧
        judge i now = .ok (verdictOn p now.wall)) ∧
      ∀ (site : Site) (l : Limiter) (r : Request) (q : PhraseRequest) (here : Instant),
        q.phrase = p → site.HasRegularZones → r.now.IsShown → Asks site l r q here → here.wall.date.year ≤ 9998 →
        (verdictOn p here.wall = .accepted →
          ∃ utc words trust, (step site l r).2.Has (scheduledMembers utc words trust)) ∧
        ∀ why, (verdictOn p here.wall).reason? = some why →
          (step site l r).2.Has (unacceptableMembers why) := by
  constructor
  · intro now hyear
    obtain ⟨category, i, words, hi, hj, -⟩ := exists_interpret_of_mem_offeredPhrases hp hyear
    exact ⟨category, i, words, hi, hj⟩
  · rintro site l r q here rfl hsite hnow hasks hyear
    obtain ⟨category, i, words, hi, hj, hroom⟩ := exists_interpret_of_mem_offeredPhrases hp hyear
    rw [hasks.step_eq]
    constructor
    · intro hv
      rw [hv] at hj
      obtain ⟨utc, hutc⟩ := exists_utcText_of_judge hsite hnow hasks hi hj hroom
      exact ⟨utc, words, _, has_scheduled_iff.mpr ⟨category, i, hi, hj, hutc, rfl⟩⟩
    · intro why hwhy
      exact has_unacceptable_iff.mpr ⟨category, i, words, _, hi, hj, hwhy⟩

/-- The evening is offered, and scheduled in Paris on the night in which clocks there are put forward. -/
theorem this_evening_is_scheduled :
    "this evening" ∈ offeredPhrases ∧ parisNight.wall.date.year ≤ 9998 ∧
      openSite.HasRegularZones ∧ (nightRequest "this evening").now.IsShown ∧
      Asks openSite freshLimiter (nightRequest "this evening")
        ⟨"this evening", .named "Europe/Paris"⟩ parisNight ∧
      verdictOn "this evening" parisNight.wall = .accepted ∧
      ∃ utc words trust, (step openSite freshLimiter (nightRequest "this evening")).2.Has
        (scheduledMembers utc words trust) := by
  have hp : "this evening" ∈ offeredPhrases := by decide
  have hyear : parisNight.wall.date.year ≤ 9998 := by decide +kernel
  have hnow : (nightRequest "this evening").now.IsShown := by
    intro z hz
    cases hz
  have hasks : Asks openSite freshLimiter (nightRequest "this evening")
      ⟨"this evening", .named "Europe/Paris"⟩ parisNight := by
    refine ⟨⟨rfl, rfl⟩, by decide +kernel, ⟨99, by decide +kernel⟩, by decide +kernel, .paris, ?_, ?_⟩
    · decide +kernel
    · decide +kernel
  have hv : verdictOn "this evening" parisNight.wall = .accepted := by decide +kernel
  obtain ⟨-, hanswers⟩ := offered_phrase_is_answered hp
  exact ⟨hp, hyear, hasRegularZones_openSite, hnow, hasks, hv,
    (hanswers _ _ _ _ _ rfl hasRegularZones_openSite hnow hasks hyear).1 hv⟩

/-- A morning in the summer after the date of the dated phrase. -/
def summerMorning : Instant :=
  ⟨Wall.on (.ofNumbers 2025 6 1 (by decide)) (10 * hour) tenHours_lt, .fixed 0, false⟩

/-- The dated phrase is suggested on that morning as well, but is answered with no time: it names a date
    that has passed. -/
theorem dated_phrase_has_passed :
    "2024-12-25 10:00" ∈ suggestions ∧ summerMorning.wall.date.year ≤ 9998 ∧
      (∃ i words, interpret Row.all "2024-12-25 10:00".toList summerMorning =
        .ok (.resolved .isoDate i words) ∧ judge i summerMorning = .ok .past) ∧
      (step openSite freshLimiter { nightRequest "2024-12-25 10:00" with now := summerMorning }).2 =
        .answered (.unacceptable "Schedule time must be in the future") := by
  refine ⟨by decide, by decide +kernel, ?_, answer?_eq_some_iff.mp (by decide +kernel)⟩
  refine ⟨⟨datedTime, .fixed 0, false⟩, "Wednesday, Dec 25 at 10:00 AM", ?_, ?_⟩
  · decide +kernel
  · decide +kernel

end Almanac.Service
