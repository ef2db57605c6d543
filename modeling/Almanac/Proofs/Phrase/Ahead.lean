import Almanac.Proofs.Phrase.Offset
import Almanac.Proofs.Phrase.Overrun
import Almanac.Proofs.Phrase.WallClock

/-!
# How far ahead a phrase leads

A phrase that counts days names a time of day on the day that it counts to, which comes after the
reference and at most 31 days ahead. So it can always be scheduled, and an offset unless it leads
beyond the limit of a year. When the reference moves on, no phrase leads to an earlier time.
-/

namespace Almanac.Calendar.Wall

variable {v w : Wall}

/-! ### Days -/

theorem dayIndex_of_shift_days {n : Nat} (h : w.shift (day * n : Nat) = .ok v) :
    v.dayIndex = w.dayIndex + n ∧ v.time = w.time := by
  have hv : v.ticks = w.ticks + day * n := Int.ofNat.inj (shift_eq_ok_iff.mp h)
  rw [dayIndex, dayIndex, time, time, hv]
  exact ⟨Nat.add_mul_div_left _ _ (by decide), Nat.add_mul_mod_self_left ..⟩

theorem daysUntilClock_le (w : Wall) (k : Clock) : w.daysUntilClock k ≤ 1 := by
  rw [daysUntilClock]
  split
  · exact Nat.zero_le 1
  · exact Nat.le_refl 1

theorem daysToNextMonth_mem (w : Wall) : 1 ≤ w.daysToNextMonth ∧ w.daysToNextMonth ≤ 31 := by
  have hday := w.date.day_pos
  have hlength := (daysInMonth_mem w.date.year w.date.month_pos w.date.month_le).2
  rw [daysToNextMonth]
  omega

/-- The day on which clocks show a time of day next is not earlier for a later time. -/
theorem dayIndex_add_daysUntilClock_mono (h : v ≤ w) (k : Clock) :
    v.dayIndex + v.daysUntilClock k ≤ w.dayIndex + w.daysUntilClock k := by
  rcases Nat.lt_or_eq_of_le (dayIndex_le_of_le h) with hlt | heq
  · have hone := v.daysUntilClock_le k
    omega
  · have hclock : v.atClock k = w.atClock k := by
      rw [atClock, atClock, date_eq_of_dayIndex_eq heq]
    rw [daysUntilClock, daysUntilClock, hclock, heq]
    split
    · exact Nat.le_add_right ..
    · next hv =>
      have hw : ¬w < w.atClock k := fun hlt => hv (Nat.lt_of_le_of_lt h hlt)
      rw [if_neg hw]

end Almanac.Calendar.Wall

namespace Almanac.Phrase

open Calendar Text

variable {row : Row} {r : Reading} {text : List Char} {c : Captures} {now later i j : Instant}
  {k : Clock} {m n u : Nat} {category : Category} {words : String}

/-- The next time that it is a day of the week is not earlier for a later day. -/
theorem add_daysUntil_mono {a b : Nat} (h : a ≤ b) (n : Int) :
    a + (daysUntil (a % 7 : Nat) n).toNat ≤ b + (daysUntil (b % 7 : Nat) n).toNat := by
  simp only [daysUntil]
  split
  · split <;> omega
  · split <;> omega

theorem elim_le {α : Type} {o : Option α} {f : α → Nat} (h : ∀ a, f a ≤ n) : o.elim 0 f ≤ n := by
  cases o with
  | none => exact Nat.zero_le n
  | some a => exact h a

theorem add_elim_mono {α : Type} {o : Option α} {f g : α → Nat} (hmn : m ≤ n)
    (h : ∀ a, m + f a ≤ n + g a) : m + o.elim 0 f ≤ n + o.elim 0 g := by
  cases o with
  | none => exact hmn
  | some a => exact h a

theorem daysAhead_le (r : Reading) (now : Instant) : r.daysAhead now ≤ 31 := by
  have hclock (k : Clock) : now.wall.daysUntilClock k ≤ 31 :=
    Nat.le_trans (now.wall.daysUntilClock_le k) (by decide)
  have hweekday (n : Nat) : (daysUntil now.wall.weekday n).toNat ≤ 31 := by
    have hmem := daysUntil_mem now.wall.weekday n
    omega
  obtain ⟨row, c⟩ := r
  simp only [Reading.daysAhead]
  cases row with
  | atClock => exact elim_le hclock
  | weekday => exact elim_le hweekday
  | weekdayAtClock => exact elim_le hweekday
  | nextMonth => exact now.wall.daysToNextMonth_mem.2
  | thisEvening => exact hclock eveningTime
  | thisMorning => exact hclock morningTime
  | thisAfternoon => exact hclock afternoonTime
  | _ => exact Nat.le_of_ble_eq_true rfl

/-- The day to which a phrase counts is not earlier for a later reference. -/
theorem dayIndex_add_daysAhead_mono (h : now.wall ≤ later.wall) (r : Reading) :
    now.wall.dayIndex + r.daysAhead now ≤ later.wall.dayIndex + r.daysAhead later := by
  have hday := Wall.dayIndex_le_of_le h
  have hclock := Wall.dayIndex_add_daysUntilClock_mono h
  have hweekday (n : Nat) := add_daysUntil_mono hday n
  obtain ⟨row, c⟩ := r
  simp only [Reading.daysAhead]
  cases row with
  | atClock => exact add_elim_mono hday hclock
  | weekday => exact add_elim_mono hday hweekday
  | weekdayAtClock => exact add_elim_mono hday hweekday
  | nextMonth => exact Wall.dayIndex_add_daysToNextMonth_mono hday
  | thisEvening => exact hclock eveningTime
  | thisMorning => exact hclock morningTime
  | thisAfternoon => exact hclock afternoonTime
  | _ => exact Nat.add_le_add_right hday _

/-! ### Computations that succeed -/

theorem bind_eq_ok_iff {α β : Type} {x : Except Fault α} {g : α → Except Fault β} {b : β} :
    x >>= g = .ok b ↔ ∃ a, x = .ok a ∧ g a = .ok b := by
  cases x with
  | ok a => simp [bind, Except.bind]
  | error e => simp [bind, Except.bind]

theorem map_eq_ok_iff {α β ε : Type} {x : Except ε α} {g : α → β} {b : β} :
    x.map g = .ok b ↔ ∃ a, x = .ok a ∧ g a = b := by
  cases x with
  | ok a => simp [Except.map]
  | error e => simp [Except.map]

theorem onCalendar_eq_ok_iff {α : Type} {x : Except CalendarError α} {a : α} :
    onCalendar x = .ok a ↔ x = .ok a := by
  cases x <;> simp

theorem atClock_eq_ok_iff {m : Except Fault Instant} :
    (do
      let next ← m
      .ok (next.atClock k)) = .ok i ↔ ∃ next, m = .ok next ∧ next.atClock k = i := by
  simp [bind_eq_ok_iff]

theorem atKeptClock_eq_ok_iff {m : Except Fault Instant} {otherwise : Option Clock} :
    (do
      let next ← m
      .ok (next.atClock (← r.clock otherwise))) = .ok i ↔
        ∃ next k, m = .ok next ∧ r.clock otherwise = .ok k ∧ next.atClock k = i := by
  simp [bind_eq_ok_iff]

theorem dayIndex_of_moved {d : Int} (hd : d = (day * n : Nat)) (h : moved i d = .ok j) :
    j.wall.dayIndex = i.wall.dayIndex + n ∧ j.wall.time = i.wall.time := by
  rw [moved, onCalendar_eq_ok_iff, Instant.shift, map_eq_ok_iff, hd] at h
  obtain ⟨w, hw, rfl⟩ := h
  exact Wall.dayIndex_of_shift_days hw

theorem dayIndex_of_moved_day (h : moved i day = .ok j) :
    j.wall.dayIndex = i.wall.dayIndex + 1 ∧ j.wall.time = i.wall.time :=
  dayIndex_of_moved (by rw [Nat.mul_one]) h

/-! ### Arriving on a later day -/

/-- Whether an instant is at a time of day, a number of days after the day of the reference, and comes
    after the reference. -/
structure Arrives (now i : Instant) (n : Nat) (k : Clock) : Prop where
  day   : i.wall.dayIndex = now.wall.dayIndex + n
  time  : i.wall.time = k.time
  after : now.wall < i.wall

theorem arrives_atClock (h : j.wall.dayIndex = now.wall.dayIndex + n) (hn : 1 ≤ n) (k : Clock) :
    Arrives now (j.atClock k) n k := by
  have hday : (j.atClock k).wall.dayIndex = now.wall.dayIndex + n := by
    rw [Instant.wall_atClock, Wall.dayIndex_atClock, h]
  exact ⟨hday, by rw [Instant.wall_atClock, Wall.time_atClock], Wall.lt_iff.mpr (.inl (by omega))⟩

theorem arrives_nextClock (h : nextClock now k = .ok i) :
    Arrives now i (now.wall.daysUntilClock k) k := by
  rw [nextClock, rollForward_eq (Instant.frame_atClock ..), Instant.wall_atClock] at h
  rw [Wall.daysUntilClock]
  split at h
  · next hlt =>
    obtain rfl := Except.ok.inj h
    rw [if_pos hlt]
    exact ⟨by simp, by simp, hlt⟩
  · next hlt =>
    obtain ⟨hday, htime⟩ := dayIndex_of_moved_day h
    rw [Instant.wall_atClock, Wall.dayIndex_atClock] at hday
    rw [Instant.wall_atClock, Wall.time_atClock] at htime
    rw [if_neg hlt]
    exact ⟨hday, htime, Wall.lt_iff.mpr (.inl (by omega))⟩

theorem arrives_nextWeekday {n : Int} (h : nextWeekday now n = .ok i) :
    Arrives now i (daysUntil now.wall.weekday n).toNat dayTime := by
  have hmem := daysUntil_mem now.wall.weekday n
  rw [nextWeekday, map_eq_ok_iff] at h
  obtain ⟨j, hj, rfl⟩ := h
  exact arrives_atClock (dayIndex_of_moved (day_mul_daysUntil ..) hj).1 (by omega) dayTime

theorem arrives_weekdayOfReading (h : Rule.weekdayOfReading r now = .ok i) :
    ∃ n, r.weekday? = some n ∧ Arrives now i (daysUntil now.wall.weekday n).toNat dayTime := by
  simp only [Rule.weekdayOfReading, bind_eq_ok_iff] at h
  obtain ⟨v, hv, n, hn, hnext⟩ := h
  refine ⟨n, ?_, arrives_nextWeekday hnext⟩
  rw [Reading.field] at hv
  split at hv
  · obtain rfl := Except.ok.inj hv
    rw [Reading.weekday?, hn]
    rfl
  · cases hv

theorem arrives_weekdayClock
    (h : (do
      let next ← Rule.weekdayOfReading r now
      .ok (next.atClock (← r.clock none))) = .ok i) :
    ∃ k n, r.clock none = .ok k ∧ r.weekday? = some n ∧
      Arrives now i (daysUntil now.wall.weekday n).toNat k := by
  obtain ⟨next, k, hnext, hk, rfl⟩ := atKeptClock_eq_ok_iff.mp h
  obtain ⟨n, hn, hday⟩ := arrives_weekdayOfReading hnext
  have hmem := daysUntil_mem now.wall.weekday n
  exact ⟨k, n, hk, hn, arrives_atClock hday.day (by omega) k⟩

/-- Whether the phrases of a category count days from the reference. -/
def Category.CountsDays (category : Category) : Prop :=
  category ∉ [.relativeOffset, .slashDate, .isoDate, .now]

instance (category : Category) : Decidable category.CountsDays :=
  inferInstanceAs (Decidable (_ ∉ _))

/-- The time of day that a phrase names on the day to which it counts, if it counts days. -/
def Reading.timeOfDay? (r : Reading) : Option Clock :=
  match r.row with
  | .tomorrow        => some dayTime
  | .tomorrowAtClock => (r.clock none).toOption
  | .weekday         => some dayTime
  | .weekdayAtClock  => (r.clock none).toOption
  | .nextWeek        => some dayTime
  | .nextMonth       => some dayTime
  | .atClock         => (r.clock none).toOption
  | .thisEvening     => some eveningTime
  | .thisMorning     => some morningTime
  | .thisAfternoon   => some afternoonTime
  | _                => none

/-- A phrase that counts days names its time of day on the day to which it counts, after the
    reference. -/
theorem arrives_of_resolve (hc : row.category.CountsDays)
    (h : Reading.resolve ⟨row, c⟩ now = .ok i) :
    ∃ k, Reading.timeOfDay? ⟨row, c⟩ = some k ∧
      Arrives now i (Reading.daysAhead ⟨row, c⟩ now) k := by
  have hweek : ((7 * day : Nat) : Int) = (day * 7 : Nat) := by rw [Nat.mul_comm]
  cases row with
  | inMinutes => exact absurd hc (by decide)
  | inHours => exact absurd hc (by decide)
  | inDays => exact absurd hc (by decide)
  | inWeeks => exact absurd hc (by decide)
  | slashDate => exact absurd hc (by decide)
  | isoDate => exact absurd hc (by decide)
  | now => exact absurd hc (by decide)
  | atClock =>
    obtain ⟨k, hk, hnext⟩ := bind_eq_ok_iff.mp h
    refine ⟨k, by rw [Reading.timeOfDay?, hk]; rfl, ?_⟩
    rw [Reading.daysAhead, hk]
    exact arrives_nextClock hnext
  | tomorrow =>
    obtain ⟨next, hnext, rfl⟩ := atClock_eq_ok_iff.mp h
    exact ⟨dayTime, rfl, arrives_atClock (dayIndex_of_moved_day hnext).1 (Nat.le_refl 1) dayTime⟩
  | tomorrowAtClock =>
    obtain ⟨next, k, hnext, hk, rfl⟩ := atKeptClock_eq_ok_iff.mp h
    exact ⟨k, by rw [Reading.timeOfDay?, hk]; rfl,
      arrives_atClock (dayIndex_of_moved_day hnext).1 (Nat.le_refl 1) k⟩
  | weekday =>
    obtain ⟨n, hn, hday⟩ := arrives_weekdayOfReading h
    refine ⟨dayTime, rfl, ?_⟩
    rw [Reading.daysAhead, hn]
    exact hday
  | weekdayAtClock =>
    obtain ⟨k, n, hk, hn, hday⟩ := arrives_weekdayClock h
    refine ⟨k, by rw [Reading.timeOfDay?, hk]; rfl, ?_⟩
    rw [Reading.daysAhead, hn]
    exact hday
  | thisEvening => exact ⟨eveningTime, rfl, arrives_nextClock h⟩
  | thisMorning => exact ⟨morningTime, rfl, arrives_nextClock h⟩
  | thisAfternoon => exact ⟨afternoonTime, rfl, arrives_nextClock h⟩
  | nextWeek =>
    obtain ⟨next, hnext, rfl⟩ := atClock_eq_ok_iff.mp h
    exact ⟨dayTime, rfl, arrives_atClock (dayIndex_of_moved hweek hnext).1 (by decide) dayTime⟩
  | nextMonth =>
    obtain ⟨next, hnext, rfl⟩ := atClock_eq_ok_iff.mp h
    rw [onCalendar_eq_ok_iff, Instant.firstOfNextMonth, map_eq_ok_iff] at hnext
    obtain ⟨w, hw, rfl⟩ := hnext
    exact ⟨dayTime, rfl, arrives_atClock (Wall.dayIndex_of_firstOfNextMonth hw)
      now.wall.daysToNextMonth_mem.1 dayTime⟩

/-! ### Always schedulable -/

theorem Row.exists_unit?_of_category (h : row.category = .relativeOffset) :
    ∃ u, row.unit? = some u ∧ 0 < u := by
  cases row with
  | inMinutes => exact ⟨minute, rfl, by decide⟩
  | inHours => exact ⟨hour, rfl, by decide⟩
  | inDays => exact ⟨day, rfl, by decide⟩
  | inWeeks => exact ⟨week, rfl, by decide⟩
  | _ => cases h

/-- An offset leads ahead. -/
theorem lt_of_relativeOffset (h : row.shape.Reads (normalize text) c)
    (hrow : row.category = .relativeOffset) (hi : Reading.resolve ⟨row, c⟩ now = .ok i) :
    now.wall < i.wall := by
  obtain ⟨u, hu, hpos⟩ := Row.exists_unit?_of_category hrow
  obtain ⟨-, hamount, hticks⟩ := ticks_eq_of_resolve h hu hi
  have hlt : (0 : Int) < u * numberAt c .amount := by
    rw [← Int.natCast_mul]
    exact Int.ofNat_lt.mpr (Nat.mul_pos hpos hamount)
  rw [Wall.lt_def]
  omega

/-- What lies less than 365 days ahead is within the limit of a year. -/
theorem judge_eq_accepted_of_lt (hyear : now.wall.date.year ≤ 9998) (hf : i.frame = now.frame)
    (hlt : now.wall < i.wall) (h : i.wall.dayIndex < now.wall.dayIndex + 365) :
    judge i now = .ok .accepted := by
  obtain ⟨x, hx⟩ := Wall.exists_nextYear_of_year_le hyear
  have hlength := (Wall.comesAgain_of_nextYear hx).1.index_add_le
  rw [Wall.index_date, Wall.index_date] at hlength
  rw [judge_eq_judgeAt hf, judgeAt_eq_accepted_iff]
  exact ⟨hlt, x, hx, Wall.le_iff.mpr (.inl (by omega))⟩

/-- Before the last year of the calendar, what a phrase names that counts days comes after the
    reference, at most 31 days ahead, and is accepted. An offset leads ahead of the reference, and is
    rejected, if at all, for leading too far. -/
theorem schedulable_of_interpret (hyear : now.wall.date.year ≤ 9998)
    (h : interpret Row.all text now = .ok (.resolved category i words)) :
    (category.CountsDays →
        now.wall < i.wall ∧ i.wall.date.index ≤ now.wall.date.index + 31 ∧
          judge i now = .ok .accepted) ∧
      (category = .relativeOffset →
        now.wall < i.wall ∧ (judge i now = .ok .accepted ∨ judge i now = .ok .tooFarAhead)) := by
  obtain ⟨hf, -⟩ := frame_eq_of_interpret h
  obtain ⟨row, c, hreads, rfl, hi, -⟩ := exists_reads_of_interpret h
  constructor
  · intro hc
    obtain ⟨k, -, harrives⟩ := arrives_of_resolve hc hi
    have hday := harrives.day
    have hahead := daysAhead_le ⟨row, c⟩ now
    refine ⟨harrives.after, ?_, judge_eq_accepted_of_lt hyear hf harrives.after (by omega)⟩
    rw [Wall.index_date, Wall.index_date]
    omega
  · intro hrow
    have hlt := lt_of_relativeOffset hreads hrow hi
    obtain ⟨x, hx⟩ := Wall.exists_nextYear_of_year_le hyear
    rw [judge_eq_judgeAt hf, judgeAt_of_nextYear hlt hx]
    refine ⟨hlt, ?_⟩
    split
    · exact .inl rfl
    · exact .inr rfl

/-- On the first day of a year, in the morning. -/
def newYear : Instant := floatingAt 2024 1 1 morningTime (by decide)

/-- From the first day of a year the next month is 31 days ahead, and is accepted; 400 days lead too
    far. -/
theorem schedulable_on_newYear :
    newYear.wall.date.year ≤ 9998 ∧
      (∃ i words, interpret Row.all "next month".toList newYear =
          .ok (.resolved .nextMonth i words) ∧ newYear.wall < i.wall ∧
            i.wall.date.index = newYear.wall.date.index + 31 ∧ judge i newYear = .ok .accepted) ∧
      ∃ i words, interpret Row.all "in 400 days".toList newYear =
          .ok (.resolved .relativeOffset i words) ∧ newYear.wall < i.wall ∧
            judge i newYear = .ok .tooFarAhead := by
  have hyear : newYear.wall.date.year ≤ 9998 := by decide
  have hmonth : interpret Row.all "next month".toList newYear =
      .ok (.resolved .nextMonth (floatingAt 2024 2 1 dayTime (by decide))
        "Thursday, Feb 1 at 9:00 AM") := by
    decide +kernel
  have hdays : interpret Row.all "in 400 days".toList newYear =
      .ok (.resolved .relativeOffset (floatingAt 2025 2 4 morningTime (by decide))
        "Tuesday, Feb 4 at 8:00 AM") := by
    decide +kernel
  obtain ⟨hafter, -, haccepted⟩ := (schedulable_of_interpret hyear hmonth).1 (by decide)
  obtain ⟨hahead, hjudge⟩ := (schedulable_of_interpret hyear hdays).2 rfl
  exact ⟨hyear, ⟨_, _, hmonth, hafter, by decide +kernel, haccepted⟩,
    _, _, hdays, hahead, hjudge.resolve_left (by decide +kernel)⟩

/-! ### Asking later -/

theorem Arrives.wall_le (hi : Arrives now i m k) (hj : Arrives later j n k)
    (h : now.wall.dayIndex + m ≤ later.wall.dayIndex + n) : i.wall ≤ j.wall := by
  have hdi := hi.day
  have hdj := hj.day
  have htime := hi.time.trans hj.time.symm
  rw [Wall.le_iff]
  omega

theorem wall_le_of_countsDays (hc : row.category.CountsDays) (hle : now.wall ≤ later.wall)
    (hi : Reading.resolve ⟨row, c⟩ now = .ok i) (hj : Reading.resolve ⟨row, c⟩ later = .ok j) :
    i.wall ≤ j.wall := by
  obtain ⟨k, hk, hai⟩ := arrives_of_resolve hc hi
  obtain ⟨k', hk', haj⟩ := arrives_of_resolve hc hj
  obtain rfl : k = k' := Option.some.inj (hk.symm.trans hk')
  exact hai.wall_le haj (dayIndex_add_daysAhead_mono hle _)

theorem wall_le_of_unit? (h : row.shape.Reads (normalize text) c) (hu : row.unit? = some u)
    (hle : now.wall ≤ later.wall) (hi : Reading.resolve ⟨row, c⟩ now = .ok i)
    (hj : Reading.resolve ⟨row, c⟩ later = .ok j) : i.wall ≤ j.wall := by
  obtain ⟨-, -, hti⟩ := ticks_eq_of_resolve h hu hi
  obtain ⟨-, -, htj⟩ := ticks_eq_of_resolve h hu hj
  rw [Wall.le_def] at hle ⊢
  omega

theorem wall_le_of_explicitDateOf (hi : Rule.explicitDateOf r now = .ok i)
    (hj : Rule.explicitDateOf r later = .ok j) : i.wall ≤ j.wall := by
  have halike := alike_explicitDateOf r now later
  rw [hi, hj] at halike
  obtain ⟨hw⟩ := halike
  exact Nat.le_of_eq (congrArg Wall.ticks hw)

/-- From a later reference, a row does not lead to an earlier time. -/
theorem wall_le_of_resolve (h : row.shape.Reads (normalize text) c) (hle : now.wall ≤ later.wall)
    (hi : Reading.resolve ⟨row, c⟩ now = .ok i) (hj : Reading.resolve ⟨row, c⟩ later = .ok j) :
    i.wall ≤ j.wall := by
  cases row with
  | inMinutes => exact wall_le_of_unit? h rfl hle hi hj
  | inHours => exact wall_le_of_unit? h rfl hle hi hj
  | inDays => exact wall_le_of_unit? h rfl hle hi hj
  | inWeeks => exact wall_le_of_unit? h rfl hle hi hj
  | slashDate => exact wall_le_of_explicitDateOf hi hj
  | isoDate => exact wall_le_of_explicitDateOf hi hj
  | now =>
    obtain rfl := Except.ok.inj hi
    obtain rfl := Except.ok.inj hj
    exact hle
  | _ => exact wall_le_of_countsDays (by decide) hle hi hj

/-- Asking later never leads to an earlier time: from a later reference, a phrase does not name an
    earlier time of the wall clock. -/
theorem interpret_mono {category' : Category} {words' : String} (hle : now.wall ≤ later.wall)
    (hi : interpret Row.all text now = .ok (.resolved category i words))
    (hj : interpret Row.all text later = .ok (.resolved category' j words')) :
    i.wall ≤ j.wall := by
  obtain ⟨row, c, h, -, hri, -⟩ := exists_reads_of_interpret hi
  obtain ⟨row', c', h', -, hrj, -⟩ := exists_reads_of_interpret hj
  obtain rfl := Row.eq_of_reads h h'
  obtain rfl := Row.reads_unique h h'
  exact wall_le_of_resolve h hle hri hrj

/-- In the evening, this morning is that of the next day; from eight on, it is that of the day
    after. -/
theorem interpret_mono_thisMorning :
    leapEve.wall ≤ leapMorning.wall ∧ ∃ i j words words',
      interpret Row.all "this morning".toList leapEve = .ok (.resolved .morning i words) ∧
      interpret Row.all "this morning".toList leapMorning = .ok (.resolved .morning j words') ∧
      i.wall ≤ j.wall ∧ i.wall ≠ j.wall := by
  have hle : leapEve.wall ≤ leapMorning.wall := by decide +kernel
  have hi : interpret Row.all "this morning".toList leapEve =
      .ok (.resolved .morning leapMorning "In 13 hours (8:00 AM)") := by
    decide +kernel
  have hj : interpret Row.all "this morning".toList leapMorning =
      .ok (.resolved .morning (floatingAt 2024 3 1 morningTime (by decide))
        "Tomorrow at 8:00 AM") := by
    decide +kernel
  exact ⟨hle, _, _, _, _, hi, hj, interpret_mono hle hi hj, by decide +kernel⟩

end Almanac.Phrase
