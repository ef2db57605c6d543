import Almanac.Proofs.Phrase.Offset
import Almanac.Proofs.Service.Schedule

/-!
# How much time passes until a scheduled time

A number of units of time is counted on the wall clock of the zone of a request. In UTC as much time
passes until the scheduled time, less what clocks are put forward in between and more what they are
put back.
-/

namespace Almanac.Service

open Calendar Phrase

variable {site : Site} {l : Limiter} {r : Request} {q : PhraseRequest} {row : Row} {c : Captures}
  {utc unit : String} {n u : Nat}

theorem exists_schedules_of_asked? (hq : r.asked? = some q)
    (h : (step site l r).2.scheduledAt? = some utc) :
    ∃ zone here i, zoneOf? site q = some zone ∧ r.now.inZone zone = .ok here ∧
      Schedules q.phrase here i utc := by
  obtain ⟨q', zone, here, i, hasked, hzone⟩ := exists_schedules_of_step h
  obtain rfl : q = q' := Option.some.inj (hq.symm.trans hasked)
  exact ⟨zone, here, i, hzone⟩

/-- In any zone, an offset leads to a time on the wall clock. As much time passes in UTC, less what
    clocks are put forward between the reference and that time, or more what they are put back. -/
theorem elapsed_of_schedules {zone : Zone} {now here i : Instant} {phrase : String}
    (hz : zone.IsRegular) (hnow : now.IsShown) (hhere : now.inZone zone = .ok here)
    (hs : Schedules phrase here i utc) (hr : row.shape.Reads (normalize phrase.toList) c)
    (hu : row.unit? = some u) :
    ∃ reference scheduled, now.utcWall = .ok reference ∧
      Instant.read? utc = some ⟨scheduled, .fixed 0, false⟩ ∧
        (i.wall.ticks : Int) =
          reference.ticks + (zone.fromUtc reference).1 + u * numberAt c .amount ∧
        (scheduled.ticks : Int) - reference.ticks =
          u * numberAt c .amount - (zone.offset i.wall false - (zone.fromUtc reference).1) := by
  obtain ⟨hframe, reference, href, hshows, -⟩ := Instant.shows_of_inZone hz hnow hhere
  obtain ⟨category, words, hi⟩ := hs.resolved
  obtain ⟨hf, -⟩ := frame_eq_of_interpret hi
  obtain ⟨hlater, hticks⟩ := ticks_eq_of_interpret hr hu hi
  obtain ⟨scheduled, hutc, hread⟩ := exists_utcWall_of_utcText hs.written
  rw [Instant.utcWall_eq_ok_iff (hf.trans hframe), hlater] at hutc
  refine ⟨reference, scheduled, href, hread, ?_, ?_⟩
  · rw [hticks, hshows]
  · rw [hutc, hticks, hshows]
    omega

/-- From the reference to the time that is scheduled for a number of units of time, written with any
    name of the unit, just that time passes in UTC, less the change of the offset of the zone. -/
theorem elapsed_eq_sub_offset (hsite : site.HasRegularZones) (hnow : r.now.IsShown)
    (hq : r.asked? = some q) (hphrase : q.phrase.toList = offsetText n unit) (hu : (unit, u) ∈ unitNames)
    (h : (step site l r).2.scheduledAt? = some utc) :
    ∃ zone reference target scheduled, zoneOf? site q = some zone ∧
      r.now.utcWall = .ok reference ∧ Instant.read? utc = some ⟨scheduled, .fixed 0, false⟩ ∧
        (target.ticks : Int) = reference.ticks + (zone.fromUtc reference).1 + u * n ∧
        (scheduled.ticks : Int) - reference.ticks =
          u * n - (zone.offset target false - (zone.fromUtc reference).1) ∧
        ((scheduled.ticks : Int) - reference.ticks = u * n ↔
          zone.offset target false = (zone.fromUtc reference).1) := by
  obtain ⟨zone, here, i, hzone, hhere, hs⟩ := exists_schedules_of_asked? hq h
  obtain ⟨row, hrow, hreads⟩ := exists_reads_offsetText hu n
  rw [← hphrase] at hreads
  have hz := hsite.isRegular hzone
  obtain ⟨reference, scheduled, href, hread, htarget, he⟩ :=
    elapsed_of_schedules hz hnow hhere hs hreads hrow
  have hn : numberAt [(.amount, Text.decimal n), (.unit, unit.toList)] .amount = n :=
    Text.digitsValue_decimal n
  rw [hn] at htarget he
  refine ⟨zone, reference, i.wall, scheduled, hzone, href, hread, htarget, he, ?_⟩
  rw [he]
  omega

/-- Half past midnight in UTC, on the day on which clocks in Europe are put forward at one. -/
def springNight : Instant :=
  ⟨Wall.on (.ofNumbers 2024 3 31 (by decide)) (30 * minute) (by decide), .fixed 0, false⟩

/-- A request for two hours from that night, in a zone. -/
def springRequest (zone : String) : Request :=
  { method := "POST", path := phrasePath, headers := [], peer := none
    body := "\x7b\"input\":\"in 2 hours\",\"timezone\":\"" ++ zone ++ "\"\x7d"
    now := springNight
    clock := 0 }

/-- In Tokyo, where clocks are never changed, two hours pass. -/
theorem elapsed_in_tokyo :
    openSite.HasRegularZones ∧ (springRequest "Asia/Tokyo").now.IsShown ∧
      (springRequest "Asia/Tokyo").asked? = some ⟨"in 2 hours", .named "Asia/Tokyo"⟩ ∧
      ("hours", hour) ∈ unitNames ∧
      (step openSite freshLimiter (springRequest "Asia/Tokyo")).2.scheduledAt? =
        some "2024-03-31T02:30:00Z" ∧
      ∃ zone reference target scheduled, springNight.utcWall = .ok reference ∧
        Instant.read? "2024-03-31T02:30:00Z" = some ⟨scheduled, .fixed 0, false⟩ ∧
          (scheduled.ticks : Int) - reference.ticks =
            hour * 2 - (Zone.offset zone target false - (zone.fromUtc reference).1) := by
  have hnow : (springRequest "Asia/Tokyo").now.IsShown := by
    intro z hz
    cases hz
  have hq : (springRequest "Asia/Tokyo").asked? =
      some ⟨"in 2 hours", .named "Asia/Tokyo"⟩ := by decide +kernel
  have hu : ("hours", hour) ∈ unitNames := by decide
  have h : (step openSite freshLimiter (springRequest "Asia/Tokyo")).2.scheduledAt? =
      some "2024-03-31T02:30:00Z" := by decide +kernel
  obtain ⟨zone, reference, target, scheduled, -, href, hread, -, he, -⟩ :=
    elapsed_eq_sub_offset (n := 2) hasRegularZones_openSite hnow hq (by decide +kernel) hu h
  exact ⟨hasRegularZones_openSite, hnow, hq, hu, h, zone, reference, target, scheduled, href, hread, he⟩

/-- In Paris, where clocks are put forward in between, only one hour passes. -/
theorem elapsed_in_paris :
    (springRequest "Europe/Paris").asked? = some ⟨"in 2 hours", .named "Europe/Paris"⟩ ∧
      (step openSite freshLimiter (springRequest "Europe/Paris")).2.scheduledAt? =
        some "2024-03-31T01:30:00Z" ∧
      ∃ scheduled, springNight.utcWall = .ok springNight.wall ∧
        Instant.read? "2024-03-31T01:30:00Z" = some ⟨scheduled, .fixed 0, false⟩ ∧
          (scheduled.ticks : Int) - springNight.wall.ticks = hour ∧
            (scheduled.ticks : Int) - springNight.wall.ticks ≠ 2 * hour := by
  refine ⟨by decide +kernel, by decide +kernel,
    Wall.on (.ofNumbers 2024 3 31 (by decide)) (90 * minute) (by decide), by decide +kernel,
    by decide +kernel, by decide +kernel, by decide +kernel⟩

end Almanac.Service
