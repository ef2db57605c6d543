import Almanac.Phrase.Acceptance
import Almanac.Phrase.Rule
import Almanac.Proofs.Calendar.Occurrence
import Mathlib.Data.List.Basic

/-!
# The window of acceptable times

An instant in the frame of the reference is judged on the wall clock. The limit is 366 days ahead if a
leap day is passed up to it, and 365 days if not, at the same time of day. It does not go
back when the reference moves on, so an accepted instant stays accepted until it passes, save from the
day before a leap day to the leap day: their limits are on one date, and there the limit follows the
time of day.
-/

namespace Almanac.Phrase

open Calendar

variable {i now earlier : Instant} {w x y : Wall}

theorem Verdict.reason?_eq_none_iff {v : Verdict} : v.reason? = none ↔ v = .accepted := by
  cases v <;> simp [Verdict.reason?]

/-- Look at a time of the wall clock at a reference. -/
def judgeAt (w now : Wall) : Except CalendarError Verdict :=
  if now < w then now.nextYear.map fun latest => if w ≤ latest then .accepted else .tooFarAhead
  else .ok .past

theorem judge_eq_judgeAt (hf : i.frame = now.frame) : judge i now = judgeAt i.wall now.wall := by
  rw [judge, judgeAt, Instant.isAfter_of_frame_eq hf, Instant.nextYear]
  by_cases hlt : now.wall < i.wall
  · cases hx : now.wall.nextYear with
    | error e => simp [hlt, Except.map, bind, Except.bind]
    | ok x =>
      have hfx : i.frame = (Instant.mk x now.frame false).frame := hf
      by_cases hle : i.wall ≤ x
      · simp [hlt, hle, Except.map, bind, Except.bind, Instant.isAfter_of_frame_eq hfx,
          ← Wall.not_le_iff]
      · simp [hlt, hle, Except.map, bind, Except.bind, Instant.isAfter_of_frame_eq hfx,
          ← Wall.not_le_iff]
  · simp [hlt, bind, Except.bind]

theorem judgeAt_of_nextYear {now : Wall} (hlt : now < w) (hx : now.nextYear = .ok x) :
    judgeAt w now = .ok (if w ≤ x then .accepted else .tooFarAhead) := by
  rw [judgeAt, if_pos hlt, hx]
  rfl

theorem judgeAt_eq_accepted_iff {now : Wall} :
    judgeAt w now = .ok .accepted ↔ now < w ∧ ∃ x, now.nextYear = .ok x ∧ w ≤ x := by
  by_cases hlt : now < w
  · cases hx : now.nextYear with
    | error e => simp [judgeAt, hlt, hx, Except.map]
    | ok x => simp [judgeAt_of_nextYear hlt hx, hlt]
  · simp [judgeAt, hlt]

/-! ### The limit when the reference moves on -/

/-- Whether a time that was accepted on the day before a leap day is not accepted any more on the leap
    day: it is on the date on which the limits of both are, after the time of day of the later one. -/
def LapsesOnLeapDay (earlier now w : Wall) : Prop :=
  earlier.date.IsEveOf now.date ∧ now.date.ComesAgain w.date ∧ now.time < w.time

instance (earlier now w : Wall) : Decidable (LapsesOnLeapDay earlier now w) :=
  inferInstanceAs (Decidable (_ ∧ _))

/-- What is within the limit of an earlier reference is within that of a later one, unless it
    lapses. -/
theorem le_limit_iff {earlier now : Wall} (hle : earlier ≤ now) (hx : earlier.nextYear = .ok x)
    (hy : now.nextYear = .ok y) (hw : w ≤ x) : w ≤ y ↔ ¬LapsesOnLeapDay earlier now w := by
  obtain ⟨hdx, -⟩ := Wall.comesAgain_of_nextYear hx
  obtain ⟨hdy, hty⟩ := Wall.comesAgain_of_nextYear hy
  constructor
  · rintro hwy ⟨-, hdw, htw⟩
    rw [Wall.le_iff_of_date_eq (hdw.unique hdy), hty] at hwy
    exact Nat.not_lt.mpr hwy htw
  · intro hn
    by_contra hwy
    have hyw : y ≤ w := Nat.le_of_lt (Wall.not_le_iff.mp hwy)
    have hxy : ¬x ≤ y := fun h => hwy (Nat.le_trans hw h)
    obtain ⟨heve, -⟩ := not_not.mp (mt (Wall.le_of_nextYear_iff hle hx hy).mpr hxy)
    -- both limits are on one date, so the time between them is on it as well
    have hdw : w.date = y.date :=
      Wall.date_eq_of_le_of_le hyw hw (hdx.eq_of_isEveOf hdy heve).symm
    have htw : now.time < w.time := by
      rw [Wall.le_iff_of_date_eq hdw, hty] at hwy
      exact Nat.lt_of_not_le hwy
    rw [← hdw] at hdy
    exact hn ⟨heve, hdy, htw⟩

/-- When the reference moves on, the limit of a year does not go back, and an accepted instant stays
    accepted until it passes; save from the day before a leap day to the leap day, where the limit
    goes back with the time of day, and the instants in between are too far ahead. -/
theorem accepted_until_passed (hf : earlier.frame = now.frame) (hle : earlier.wall ≤ now.wall)
    (hyear : now.wall.date.year ≤ 9998) :
    (∃ before after, earlier.nextYear = .ok before ∧ now.nextYear = .ok after ∧
        (before.wall ≤ after.wall ↔
          ¬(earlier.wall.date.IsEveOf now.wall.date ∧ now.wall.time < earlier.wall.time))) ∧
      ∀ i : Instant, i.frame = now.frame → now.wall < i.wall → judge i earlier = .ok .accepted →
        judge i now = .ok (if LapsesOnLeapDay earlier.wall now.wall i.wall then .tooFarAhead
          else .accepted) := by
  obtain ⟨x, hx⟩ := Wall.exists_nextYear_of_year_le
    (Nat.le_trans (Wall.year_le_of_le hle) hyear)
  obtain ⟨y, hy⟩ := Wall.exists_nextYear_of_year_le hyear
  constructor
  · refine ⟨⟨x, earlier.frame, false⟩, ⟨y, now.frame, false⟩, ?_, ?_, ?_⟩
    · rw [Instant.nextYear, hx]
      rfl
    · rw [Instant.nextYear, hy]
      rfl
    · exact Wall.le_of_nextYear_iff hle hx hy
  · intro i hi hlt hacc
    rw [judge_eq_judgeAt (hi.trans hf.symm), judgeAt_eq_accepted_iff] at hacc
    obtain ⟨-, x', hx', hwx⟩ := hacc
    obtain rfl : x = x' := Except.ok.inj (hx.symm.trans hx')
    rw [judge_eq_judgeAt hi, judgeAt_of_nextYear hlt hy]
    simp only [le_limit_iff hle hx hy hwx, ite_not]

/-- A time of day on a date, on a clock without offset. -/
def floatingAt (year month day : Nat) (k : Clock) (h : (Date.make year month day).toBool = true) :
    Instant :=
  ⟨Wall.on (.ofNumbers year month day h) k.time k.time_lt, .floating, false⟩

/-- In the evening before a leap day. -/
def leapEve : Instant := floatingAt 2024 2 28 eveningTime (by decide)

/-- In the morning of a leap day. -/
def leapMorning : Instant := floatingAt 2024 2 29 morningTime (by decide)

/-- The last morning of the next February. -/
def morningAfterYear : Instant := floatingAt 2025 2 28 morningTime (by decide)

/-- The last afternoon of the next February. -/
def afternoonAfterYear : Instant := floatingAt 2025 2 28 afternoonTime (by decide)

/-- What is accepted in the evening before a leap day is still accepted on the leap day, up to its time
    of day. -/
theorem accepted_on_leapMorning :
    leapEve.frame = leapMorning.frame ∧ leapEve.wall ≤ leapMorning.wall ∧
      leapMorning.wall < morningAfterYear.wall ∧ leapMorning.wall.date.year ≤ 9998 ∧
      judge morningAfterYear leapEve = .ok .accepted ∧
      judge morningAfterYear leapMorning = .ok .accepted := by
  have hf : leapEve.frame = leapMorning.frame := rfl
  have hle : leapEve.wall ≤ leapMorning.wall := by decide +kernel
  have hlt : leapMorning.wall < morningAfterYear.wall := by decide +kernel
  have hyear : leapMorning.wall.date.year ≤ 9998 := by decide +kernel
  have hacc : judge morningAfterYear leapEve = .ok .accepted := by decide +kernel
  have hstays : ¬LapsesOnLeapDay leapEve.wall leapMorning.wall morningAfterYear.wall := by
    decide +kernel
  have hjudge := (accepted_until_passed hf hle hyear).2 morningAfterYear rfl hlt hacc
  rw [if_neg hstays] at hjudge
  exact ⟨hf, hle, hlt, hyear, hacc, hjudge⟩

/-- What comes later on that day is accepted in the evening before the leap day, and has not passed on
    the leap day, but is then too far ahead: the limit has gone back. -/
theorem lapses_on_leapMorning :
    leapEve.frame = leapMorning.frame ∧ leapEve.wall ≤ leapMorning.wall ∧
      leapMorning.wall < afternoonAfterYear.wall ∧ leapMorning.wall.date.year ≤ 9998 ∧
      judge afternoonAfterYear leapEve = .ok .accepted ∧
      judge afternoonAfterYear leapMorning = .ok .tooFarAhead ∧
      ∃ before after, leapEve.nextYear = .ok before ∧ leapMorning.nextYear = .ok after ∧
        after.wall < before.wall := by
  refine ⟨rfl, by decide +kernel, by decide +kernel, by decide +kernel, by decide +kernel,
    by decide +kernel, floatingAt 2025 2 28 eveningTime (by decide), morningAfterYear, ?_⟩
  decide +kernel

/-! ### The length of the window -/

/-- The time from one time of the wall clock to another that is on the date a year later, at the same
    time of day. -/
theorem ticks_of_nextYear {now : Wall} (hx : now.nextYear = .ok x) :
    x.ticks = now.ticks + day * if now.date.PassesLeapDay then 366 else 365 := by
  obtain ⟨hd, ht⟩ := Wall.comesAgain_of_nextYear hx
  have hindex := hd.index_eq
  rw [Wall.index_date, Wall.index_date] at hindex
  calc x.ticks = day * x.dayIndex + x.time := x.ticks_eq
    _ = day * now.dayIndex + now.time + day * if now.date.PassesLeapDay then 366 else 365 := by
      rw [hindex, ht, Nat.mul_add]
      omega
    _ = now.ticks + day * if now.date.PassesLeapDay then 366 else 365 := by rw [← now.ticks_eq]

/-- A time of the wall clock is judged by the days it is ahead: it is accepted up to 365 days ahead, and
    after 366 days it is too far ahead. -/
theorem judgeAt_of_ticks {now : Wall} (hx : now.nextYear = .ok x) :
    (w.ticks ≤ now.ticks → judgeAt w now = .ok .past) ∧
      (now.ticks < w.ticks → w.ticks ≤ now.ticks + day * 365 → judgeAt w now = .ok .accepted) ∧
      (now.ticks + day * 366 < w.ticks → judgeAt w now = .ok .tooFarAhead) := by
  have hticks := ticks_of_nextYear hx
  have hlimit : now.ticks + day * 365 ≤ x.ticks ∧ x.ticks ≤ now.ticks + day * 366 := by
    rw [show day = 86400000000 from rfl] at hticks ⊢
    split at hticks <;> omega
  obtain ⟨hleast, hmost⟩ := hlimit
  refine ⟨fun h => ?_, fun hlt h => ?_, fun h => ?_⟩
  · exact if_neg (Nat.not_lt.mpr h)
  · have hle : w ≤ x := Nat.le_trans h hleast
    rw [judgeAt_of_nextYear hlt hx, if_pos hle]
  · have hxw : x < w := Nat.lt_of_le_of_lt hmost h
    have hlt : now < w := Nat.lt_of_le_of_lt (Nat.le_add_right ..) h
    rw [judgeAt_of_nextYear hlt hx, if_neg (Wall.not_le_iff.mpr hxw)]

/-- The limit is at the time of day of the reference, 366 days ahead if there is a leap day among the
    dates after the reference up to its own, and 365 days if there is none. In the frame of the
    reference, what has passed is rejected, what is up to 365 days ahead is accepted, and what is more
    than 366 days ahead is rejected. -/
theorem limit_is_a_year_ahead (hyear : now.wall.date.year ≤ 9998) :
    ∃ latest days, now.nextYear = .ok latest ∧ latest.frame = now.frame ∧
      latest.wall.time = now.wall.time ∧ latest.since now = .ok (day * days : Nat) ∧
      (now.wall.date.HasLeapDayUpTo latest.wall.date ∧ days = 366 ∨
        ¬now.wall.date.HasLeapDayUpTo latest.wall.date ∧ days = 365) ∧
      ∀ i : Instant, i.frame = now.frame → ∃ ahead : Int, i.since now = .ok ahead ∧
        (ahead ≤ 0 → judge i now = .ok .past) ∧
        (0 < ahead → ahead ≤ (day * 365 : Nat) → judge i now = .ok .accepted) ∧
        ((day * 366 : Nat) < ahead → judge i now = .ok .tooFarAhead) := by
  obtain ⟨x, hx⟩ := Wall.exists_nextYear_of_year_le hyear
  obtain ⟨hd, ht⟩ := Wall.comesAgain_of_nextYear hx
  have hticks := ticks_of_nextYear hx
  refine ⟨⟨x, now.frame, false⟩, if now.wall.date.PassesLeapDay then 366 else 365, ?_, rfl, ht, ?_,
    ?_, ?_⟩
  · rw [Instant.nextYear, hx]
    rfl
  · have hf : (Instant.mk x now.frame false).frame = now.frame := rfl
    have hdiff : (x.ticks : Int) - now.wall.ticks =
        (day * if now.wall.date.PassesLeapDay then 366 else 365 : Nat) := by
      omega
    rw [Instant.since, Instant.since?_of_frame_eq hf, ← hdiff]
  · rw [← hd.passesLeapDay_iff]
    by_cases hp : now.wall.date.PassesLeapDay
    · exact .inl ⟨hp, if_pos hp⟩
    · exact .inr ⟨hp, if_neg hp⟩
  · intro i hi
    obtain ⟨hpast, hacc, hfar⟩ := judgeAt_of_ticks (w := i.wall) hx
    refine ⟨i.wall.ticks - now.wall.ticks, ?_, ?_⟩
    · rw [Instant.since, Instant.since?_of_frame_eq hi]
    · rw [judge_eq_judgeAt hi]
      rw [show day = 86400000000 from rfl] at *
      exact ⟨fun h => hpast (by omega), fun h h' => hacc (by omega) (by omega),
        fun h => hfar (by omega)⟩

/-- From the evening before a leap day the limit is 366 days ahead. -/
theorem limit_of_leapEve :
    leapEve.wall.date.year ≤ 9998 ∧
      ∃ latest, leapEve.nextYear = .ok latest ∧ latest.since leapEve = .ok (day * 366 : Nat) := by
  have hyear : leapEve.wall.date.year ≤ 9998 := by decide +kernel
  obtain ⟨latest, days, hx, -, -, hsince, hdays, -⟩ := limit_is_a_year_ahead hyear
  obtain rfl : latest = floatingAt 2025 2 28 eveningTime (by decide) := by
    have hlimit : leapEve.nextYear = .ok (floatingAt 2025 2 28 eveningTime (by decide)) := by
      decide +kernel
    exact Except.ok.inj (hx.symm.trans hlimit)
  obtain ⟨-, rfl⟩ | ⟨hnone, -⟩ := hdays
  · exact ⟨hyear, _, hx, hsince⟩
  · refine absurd ⟨leapMorning.wall.date, ?_⟩ hnone
    rw [Date.le_iff_index_le, Date.lt_iff_index_lt]
    decide +kernel

end Almanac.Phrase
