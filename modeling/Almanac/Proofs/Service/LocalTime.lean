import Almanac.Proofs.Calendar.Skipped
import Almanac.Proofs.Service.Elapsed

/-!
# What clocks show at a scheduled time

A scheduled time is told back as it stands on the wall clock of the zone of its request. At the
moment in UTC that is given with it clocks there show just that time, unless it is one that they
skip: then they show a time that is later by as much as they are put forward.
-/

namespace Almanac.Service

open Calendar Phrase

variable {site : Site} {l : Limiter} {r : Request} {utc words : String} {trust : Nat}

/-- A skipped time is named in its earlier reading, since a reference that clocks show for the second
    time is far from the times that they skip. -/
theorem later_eq_false_of_skips {zone : Zone} {phrase : String} {here i : Instant}
    (hz : zone.IsRegular) (hnow : r.now.IsShown) (hhere : r.now.inZone zone = .ok here)
    (hs : Schedules phrase here i utc) (hskips : zone.Skips i.wall) : i.later = false := by
  rw [← Bool.not_eq_true]
  intro hl
  obtain ⟨hframe, reference, -, hshows⟩ := Instant.shows_of_inZone hz hnow hhere
  obtain ⟨category, words, hi⟩ := hs.resolved
  obtain ⟨hf, hlater⟩ := later_of_interpret hi
  obtain ⟨hhl, hdate⟩ := hlater hl
  obtain ⟨scheduled, hutc, -⟩ := exists_utcWall_of_utcText hs.written
  rw [Instant.utcWall_eq_ok_iff (hf.trans hframe)] at hutc
  obtain ⟨c, hc, hw⟩ := (Zone.skips_iff hz hutc).mp hskips
  rw [hhl] at hshows
  exact hshows.not_skips_of_lt hz hdate (lt_of_judge hf hs.accepted) hc hw

/-- The time in UTC with which a request is answered, taken back into the zone of the request, is
    the time that is told in words, exactly if that is not skipped there. For a skipped time, clocks
    show one that is later by as much as they are put forward. -/
theorem shown_when_scheduled_iff (hsite : site.HasRegularZones)
    (h : (step site l r).2 = .answered (.scheduled utc words trust)) :
    ∃ q zone here i scheduled shown, r.asked? = some q ∧ zoneOf? site q = some zone ∧
      r.now.inZone zone = .ok here ∧
      (∃ category, interpret Row.all q.phrase.toList here = .ok (.resolved category i words)) ∧
      words = restateAt i.wall (i.wall.ticks - here.wall.ticks) ∧
      Instant.read? utc = some scheduled ∧ scheduled.inZone zone = .ok shown ∧
      (shown.wall = i.wall ↔ ¬zone.Skips i.wall) ∧
      (r.now.IsShown → zone.Skips i.wall →
        ∃ c ∈ zone.changes, c.Skips i.wall ∧
          (shown.wall.ticks : Int) = i.wall.ticks + (c.after - c.before)) := by
  obtain ⟨q, zone, here, hasked, hzone, hhere, hreply⟩ := exists_replyToPhrase_of_step h
  obtain ⟨category, i, hi, hs⟩ := exists_interpret_of_replyToPhrase hreply
  have hz := hsite.isRegular hzone
  have hframe : i.frame = .zoned zone :=
    (frame_eq_of_interpret hi).1.trans (Instant.frame_of_inZone hhere)
  obtain ⟨scheduled, hutc, hread⟩ := exists_utcWall_of_utcText hs.written
  obtain ⟨shown, hshown, hiff, hlater⟩ := Instant.exists_inZone_of_utcWall hz hframe hutc
  exact ⟨q, zone, here, i, _, shown, hasked, hzone, hhere, ⟨category, hi⟩, words_of_interpret hi,
    hread, hshown, hiff,
    fun hnow hskips => hlater hskips (later_eq_false_of_skips hz hnow hhere hs hskips)⟩

/-- So many minutes after midnight, on the day on which clocks in Europe are put forward. -/
def springTime (minutes : Nat) (h : minutes * minute < day) : Wall :=
  Wall.on springNight.wall.date (minutes * minute) h

/-- A request in Paris, half an hour before clocks there are put forward from two to three. -/
def nightRequest (phrase : String) : Request :=
  { springRequest "Europe/Paris" with
    body := "\x7b\"input\":\"" ++ phrase ++ "\",\"timezone\":\"Europe/Paris\"\x7d" }

/-- Three in the night is shown, an hour and a half later on the wall clock. -/
theorem shown_at_three :
    openSite.HasRegularZones ∧
      (step openSite freshLimiter (nightRequest "at 3am")).2 =
        .answered (.scheduled "2024-03-31T01:00:00Z" "In 1 hours (3:00 AM)" 90) ∧
      ∃ (zone : Zone) (i scheduled shown : Instant),
        Instant.read? "2024-03-31T01:00:00Z" = some scheduled ∧ scheduled.inZone zone = .ok shown ∧
          (shown.wall = i.wall ↔ ¬zone.Skips i.wall) := by
  have h : (step openSite freshLimiter (nightRequest "at 3am")).2 =
      .answered (.scheduled "2024-03-31T01:00:00Z" "In 1 hours (3:00 AM)" 90) :=
    answer?_eq_some_iff.mp (by decide +kernel)
  obtain ⟨-, zone, -, i, scheduled, shown, -, -, -, -, -, hread, hshown, hiff, -⟩ :=
    shown_when_scheduled_iff hasRegularZones_openSite h
  exact ⟨hasRegularZones_openSite, h, zone, i, scheduled, shown, hread, hshown, hiff⟩

/-- Half past two is told, but skipped: clocks show half past three then. -/
theorem skipped_at_half_past_two :
    (step openSite freshLimiter (nightRequest "in 1 hour")).2 =
        .answered (.scheduled "2024-03-31T01:30:00Z" "In 1 hours (2:30 AM)" 85) ∧
      ∃ (zone : Zone) (scheduled shown : Instant), threeZones "Europe/Paris" = .ok zone ∧
        Instant.read? "2024-03-31T01:30:00Z" = some scheduled ∧
          scheduled.inZone zone = .ok shown ∧ clockText shown.wall = "3:30 AM" := by
  refine ⟨answer?_eq_some_iff.mp (by decide +kernel), .paris,
    ⟨springTime 90 (by decide), .fixed 0, false⟩, ⟨springTime 210 (by decide), .zoned .paris, false⟩,
    ?_⟩
  decide +kernel

end Almanac.Service
