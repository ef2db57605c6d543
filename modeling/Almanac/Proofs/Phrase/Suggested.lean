import Almanac.Phrase.Suggestion
import Almanac.Proofs.Phrase.Amount
import Almanac.Proofs.Phrase.Occurrence

/-!
# What suggested phrases name

Whether a phrase stays ahead of the reference can be told from its reading: it does if it counts days
or a positive offset of less than a year. All phrases that are offered do, save one that names a date:
it is acceptable for the year before that date only.
-/

namespace Almanac.Phrase

open Calendar Text

variable {r : Reading} {row : Row} {c : Captures} {text : List Char} {now : Instant} {u : Nat}
  {p : String}

/-! ### Phrases that stay ahead -/

/-- Whether what a reading names is ahead of every reference, by at most 364 days: it counts days to a
    time of day, or it counts a positive offset of that length at most. -/
def Reading.staysAhead (r : Reading) : Bool :=
  match r.row.unit? with
  | some u =>
    decide (((r.captures.lookup .amount).getD []).length ≤ maxDigits) &&
      decide (0 < numberAt r.captures .amount) &&
        decide (u * numberAt r.captures .amount ≤ 364 * day)
  | none => r.timeOfDay?.isSome

/-- A phrase names an instant that is ahead of the reference, by at most 364 days, and is accepted. -/
def NamesNear (text : List Char) (now : Instant) : Prop :=
  ∃ category i words, interpret Row.all text now = .ok (.resolved category i words) ∧
    now.wall < i.wall ∧ i.wall.dayIndex ≤ now.wall.dayIndex + 364 ∧ judge i now = .ok .accepted

/-- A time of day belongs to the phrases that count days. -/
theorem countsDays_of_timeOfDay? {k : Clock} (h : Reading.timeOfDay? ⟨row, c⟩ = some k) :
    row.category.CountsDays := by
  cases row <;> first | decide | cases h

theorem namesNear_of_timeOfDay? (htext : ∀ x ∈ text, x.toNat < 128)
    (hyear : now.wall.date.year ≤ 9998) (h : row.shape.Reads (normalize text) c)
    (hk : (Reading.timeOfDay? ⟨row, c⟩).isSome = true) : NamesNear text now := by
  obtain ⟨k, hk⟩ := Option.isSome_iff_exists.mp hk
  have hnames := (timeOfDay?_eq_some_iff h).mp hk
  obtain ⟨i, words, hi, hf, -, ha⟩ := exists_interpret_of_namesTime hyear h
    (not_hasStrayName_of_ascii htext h) hnames (countsDays_of_timeOfDay? hk)
  have hahead := daysAhead_le ⟨row, c⟩ now
  have hday := ha.day
  exact ⟨_, i, words, hi, ha.after, by omega,
    judge_eq_accepted_of_lt hyear hf ha.after (by omega)⟩

/-- A time that is moved ahead by at most 364 days is in the calendar, and at most 364 days ahead. -/
theorem exists_ticks_eq_add (hyear : now.wall.date.year ≤ 9998) {n : Nat} (h : n ≤ 364 * day) :
    ∃ w : Wall, w.ticks = now.wall.ticks + n ∧ w.dayIndex ≤ now.wall.dayIndex + 364 := by
  have hroom := Wall.dayIndex_add_lt (Nat.lt_succ_of_le hyear)
  have hticks := now.wall.ticks_eq
  have htime := now.wall.time_lt
  have hlt : now.wall.ticks + n < day * (now.wall.dayIndex + 365) := by
    rw [show day = 86400000000 from rfl] at *
    omega
  refine ⟨⟨now.wall.ticks + n, ?_⟩, rfl, Nat.le_of_lt_succ (Nat.div_lt_of_lt_mul hlt)⟩
  exact Nat.lt_of_lt_of_le hlt (Nat.mul_le_mul_left day (Nat.le_of_lt hroom))

theorem namesNear_of_unit? (htext : ∀ x ∈ text, x.toNat < 128)
    (hyear : now.wall.date.year ≤ 9998) (h : row.shape.Reads (normalize text) c)
    (hu : row.unit? = some u) (hlength : ((c.lookup .amount).getD []).length ≤ maxDigits)
    (hpos : 0 < numberAt c .amount) (hle : u * numberAt c .amount ≤ 364 * day) :
    NamesNear text now := by
  obtain ⟨w, hw, hday⟩ := exists_ticks_eq_add hyear hle
  have hreal : HasRealOffset row c now := by
    intro u' hu'
    obtain rfl := Option.some.inj (hu.symm.trans hu')
    exact ⟨hlength, hpos, w, hw⟩
  rcases interpret_of_unit? h hu (not_hasStrayName_of_ascii htext h) with
    ⟨-, w', words, hw', hi⟩ | ⟨hn, -⟩
  · obtain rfl : w = w' := Wall.ext (hw.trans hw'.symm)
    obtain ⟨u', hu', hlead⟩ := Row.exists_unit?_of_category (Row.of_unit? hu).2.2
    obtain rfl : u = u' := Option.some.inj (hu.symm.trans hu')
    have hlt : now.wall < w := by
      rw [Wall.lt_def, hw]
      exact Nat.lt_add_of_pos_right (Nat.mul_pos hlead hpos)
    exact ⟨_, _, words, hi, hlt, hday, judge_eq_accepted_of_lt hyear rfl hlt
      (Nat.lt_of_le_of_lt hday (Nat.lt_succ_self _))⟩
  · exact absurd hreal hn

/-- A phrase that stays ahead names an instant that is near, at every reference before the last year of
    the calendar. -/
theorem namesNear_of_staysAhead (htext : ∀ x ∈ text, x.toNat < 128)
    (hr : Reading.find? Row.all (normalize text) = some r) (h : r.staysAhead = true)
    (hyear : now.wall.date.year ≤ 9998) : NamesNear text now := by
  have hreads := Reading.find?_all_eq_some_iff.mp hr
  rw [Reading.staysAhead] at h
  split at h
  · next u hu =>
    simp only [Bool.and_eq_true, decide_eq_true_eq] at h
    obtain ⟨⟨hlength, hpos⟩, hle⟩ := h
    exact namesNear_of_unit? htext hyear hreads hu hlength hpos hle
  · exact namesNear_of_timeOfDay? htext hyear hreads h

/-! ### The phrase that names a date -/

/-- The suggested phrase that names a date. -/
def datedPhrase : String := "2024-12-25 10:00"

theorem tenHours_lt : 10 * hour < day := by decide

/-- The time that it names. -/
def datedTime : Wall := Wall.on (.ofNumbers 2024 12 25 (by decide)) (10 * hour) tenHours_lt

/-- The same time a year earlier. -/
def yearBeforeDated : Wall := Wall.on (.ofNumbers 2023 12 25 (by decide)) (10 * hour) tenHours_lt

theorem nextYear_yearBeforeDated : yearBeforeDated.nextYear = .ok datedTime := by
  decide +kernel

/-- It names that time, in the frame of the reference. -/
theorem interpret_datedPhrase (now : Instant) :
    ∃ words, interpret Row.all datedPhrase.toList now =
      .ok (.resolved .isoDate ⟨datedTime, now.frame, false⟩ words) := by
  have hplain : IsPlainText datedPhrase.toList := by decide
  have hreads : Row.isoDate.shape.Reads (normalize datedPhrase.toList)
      [(.year, "2024".toList), (.month, "12".toList), (.day, "25".toList), (.hour, "10".toList),
        (.minute, "00".toList)] := by
    rw [hplain.normalize_eq, ← Row.readAll?_eq_some_iff]
    rfl
  have hres : Reading.resolve ⟨.isoDate, [(.year, "2024".toList), (.month, "12".toList),
      (.day, "25".toList), (.hour, "10".toList), (.minute, "00".toList)]⟩ now =
        .ok ⟨datedTime, now.frame, false⟩ := by
    rfl
  obtain ⟨words, hi⟩ := interpret_of_resolve hres rfl
  exact ⟨words, (interpret_of_reads hreads).trans hi⟩

/-- It is acceptable for the year before that time, and never after it. -/
theorem judge_datedTime (hyear : now.wall.date.year ≤ 9998) :
    judge ⟨datedTime, now.frame, false⟩ now =
      .ok (if now.wall < yearBeforeDated then .tooFarAhead
        else if now.wall < datedTime then .accepted else .past) := by
  have horder : yearBeforeDated < datedTime := by decide
  have hmonth : yearBeforeDated.date.month ≠ 2 := by decide
  have hjudge : judge ⟨datedTime, now.frame, false⟩ now = judgeAt datedTime now.wall :=
    judge_eq_judgeAt rfl
  rw [hjudge]
  by_cases hlt : now.wall < datedTime
  · obtain ⟨x, hx⟩ := Wall.exists_nextYear_of_year_le hyear
    have hlimit : datedTime ≤ x ↔ yearBeforeDated ≤ now.wall :=
      Wall.le_nextYear_iff nextYear_yearBeforeDated hx (fun h => hmonth h.2.2.1) fun h =>
        hmonth h.1.1
    rw [judgeAt_of_nextYear hlt hx, if_pos hlt]
    by_cases hearly : now.wall < yearBeforeDated
    · rw [if_pos hearly, if_neg (mt hlimit.mp (Nat.not_le.mpr hearly))]
    · rw [if_neg hearly, if_pos (hlimit.mpr (Nat.le_of_not_lt hearly))]
  · have hlate : ¬now.wall < yearBeforeDated := fun h => hlt (Nat.lt_trans h horder)
    rw [judgeAt, if_neg hlt, if_neg hlate, if_neg hlt]

/-! ### Offered phrases -/

/-- The phrases that are offered: those to try, and those of the examples. -/
def offeredPhrases : List String :=
  suggestions ++ examples.map Example.phrase

/-- How what an offered phrase names is judged at a time: the phrase that names a date is too far ahead
    until a year before it, and then good until it has passed; any other is good. -/
def verdictOn (p : String) (now : Wall) : Verdict :=
  if p = datedPhrase then
    if now < yearBeforeDated then .tooFarAhead else if now < datedTime then .accepted else .past
  else .accepted

/-- All of them but the one that names a date stay ahead. -/
theorem staysAhead_of_mem_offeredPhrases (hp : p ∈ offeredPhrases) (hne : p ≠ datedPhrase) :
    (∀ x ∈ p.toList, x.toNat < 128) ∧
      ∃ r, Reading.find? Row.all (normalize p.toList) = some r ∧ r.staysAhead = true := by
  have hall : ∀ p ∈ offeredPhrases, p ≠ datedPhrase → IsPlainText p.toList ∧
      (Reading.find? Row.all p.toList).map Reading.staysAhead = some true := by
    decide +kernel
  obtain ⟨hplain, hr⟩ := hall p hp hne
  rw [hplain.normalize_eq]
  exact ⟨fun _ => hplain.toNat_lt, Option.map_eq_some_iff.mp hr⟩

/-- An offered phrase is understood at every reference before the last year of the calendar, and names a
    time well before the end of the calendar. -/
theorem exists_interpret_of_mem_offeredPhrases (hp : p ∈ offeredPhrases)
    (hyear : now.wall.date.year ≤ 9998) :
    ∃ category i words, interpret Row.all p.toList now = .ok (.resolved category i words) ∧
      judge i now = .ok (verdictOn p now.wall) ∧ i.wall.dayIndex + 2 ≤ dayCount := by
  by_cases hne : p = datedPhrase
  · subst hne
    obtain ⟨words, hi⟩ := interpret_datedPhrase now
    have hroom : datedTime.dayIndex + 2 ≤ dayCount := by decide
    refine ⟨_, _, words, hi, ?_, hroom⟩
    rw [judge_datedTime hyear, verdictOn, if_pos rfl]
  · obtain ⟨htext, r, hr, hahead⟩ := staysAhead_of_mem_offeredPhrases hp hne
    obtain ⟨category, i, words, hi, -, hday, hjudge⟩ :=
      namesNear_of_staysAhead htext hr hahead hyear
    have hroom := Wall.dayIndex_add_lt (Nat.lt_succ_of_le hyear)
    refine ⟨category, i, words, hi, ?_, by omega⟩
    rw [hjudge, verdictOn, if_neg hne]

end Almanac.Phrase
