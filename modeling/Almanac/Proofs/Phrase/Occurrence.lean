import Almanac.Proofs.Phrase.Naming

/-!
# The next occurrence

Before the last year of the calendar, a phrase for a time of day names the next time at which clocks
show it, strictly after the reference. A phrase for a weekday names its next date, and one for the
next month the next first day of a month: never the day of the reference.
-/

namespace Almanac.Calendar.Wall

variable {v w : Wall} {k : Clock}

theorem daysUntilClock_eq (w : Wall) (k : Clock) :
    w.daysUntilClock k = if w.time < k.time then 0 else 1 := by
  simp [daysUntilClock, lt_iff]

/-- Clocks show a time of day once a day. -/
theorem isLeast_time (hday : v.dayIndex = w.dayIndex + w.daysUntilClock k)
    (htime : v.time = k.time) : IsLeast {u : Wall | w < u ∧ u.time = k.time} v := by
  rw [daysUntilClock_eq] at hday
  constructor
  · refine ⟨?_, htime⟩
    rw [lt_iff]
    split at hday
    · omega
    · omega
  · rintro u ⟨hlt, hu⟩
    rw [lt_iff] at hlt
    rw [le_iff]
    split at hday
    · omega
    · omega

end Almanac.Calendar.Wall

namespace Almanac.Phrase

open Calendar Text Shape

variable {row : Row} {r : Reading} {text : List Char} {c : Captures} {k : Clock} {n : Nat}
  {now i : Instant} {m : Except Fault Instant} {category : Category} {words : String}

/-! ### Room to move -/

theorem Moves.exists_eq_ok (hm : Moves now m) (hyear : now.wall.date.year ≤ 9998) :
    ∃ w, m = .ok ⟨w, now.frame, false⟩ := by
  rcases hm with hw | ⟨e, -, ho⟩
  · exact hw
  · exact absurd ho (not_isOverflow_of_year_le hyear e)

/-- A phrase with known names that names a time of day is resolved to it, on the day to which the
    phrase counts. -/
theorem exists_interpret_of_namesTime (hyear : now.wall.date.year ≤ 9998)
    (h : row.shape.Reads (normalize text) c) (hs : ¬HasStrayName c) (hk : NamesTime row c k)
    (hdays : row.category.CountsDays) :
    ∃ i words, interpret Row.all text now = .ok (.resolved row.category i words) ∧
      i.frame = now.frame ∧ Reading.resolve ⟨row, c⟩ now = .ok i ∧
        Arrives now i (Reading.daysAhead ⟨row, c⟩ now) k := by
  rcases interpret_cases now h hs with ⟨-, i, words, hw, hf, -⟩ | ⟨hn, -⟩ | ⟨e, -, ho⟩
  · have hread := hw
    rw [interpret_of_reads h] at hread
    obtain ⟨-, hi, -⟩ := resolve_of_interpret hread
    obtain ⟨l, hl, ha⟩ := arrives_of_resolve hdays hi
    obtain rfl : l = k := Option.some.inj (hl.symm.trans ((timeOfDay?_eq_some_iff h).mpr hk))
    exact ⟨i, words, hw, hf, hi, ha⟩
  · exact absurd (hk.denotes h) hn
  · exact absurd ho (not_isOverflow_of_year_le hyear e)

/-- A phrase that counts days and is resolved names a time of day, and is resolved to it. -/
theorem exists_namesTime_of_interpret (hdays : category.CountsDays)
    (hi : interpret Row.all text now = .ok (.resolved category i words)) :
    ∃ (row : Row) (c : Captures) (k : Clock), row.shape.Reads (normalize text) c ∧
      row.category = category ∧ NamesTime row c k ∧ Reading.resolve ⟨row, c⟩ now = .ok i ∧
        Arrives now i (Reading.daysAhead ⟨row, c⟩ now) k := by
  obtain ⟨row, c, h, rfl, hr, -⟩ := exists_reads_of_interpret hi
  obtain ⟨k, hk, ha⟩ := arrives_of_resolve hdays hr
  exact ⟨row, c, k, h, rfl, (timeOfDay?_eq_some_iff h).mp hk, hr, ha⟩

/-! ### Times of day -/

/-- A phrase for a time of day counts the days until clocks show it. -/
theorem daysAhead_eq_daysUntilClock
    (hcat : row.category ∈ [.clockTime, .evening, .morning, .afternoon])
    (hk : Reading.timeOfDay? ⟨row, c⟩ = some k) :
    Reading.daysAhead ⟨row, c⟩ now = now.wall.daysUntilClock k := by
  cases row with
  | atClock =>
    have hclock : (Reading.clock ⟨.atClock, c⟩ none).toOption = some k := hk
    rw [Reading.daysAhead, hclock]
    rfl
  | thisEvening =>
    obtain rfl := Option.some.inj hk
    rfl
  | thisMorning =>
    obtain rfl := Option.some.inj hk
    rfl
  | thisAfternoon =>
    obtain rfl := Option.some.inj hk
    rfl
  | _ => exact absurd hcat (by decide)

/-- The rows of such phrases have no names. -/
theorem Row.of_category_timeOfDay
    (hcat : row.category ∈ [.clockTime, .evening, .morning, .afternoon]) :
    row.category.CountsDays ∧ .unit ∉ row.shape.fields ∧ .weekday ∉ row.shape.fields := by
  revert hcat
  cases row <;> decide

/-- A phrase for a time of day, with its hour and its half of the day or the hour of its part of the
    day, names the next time strictly after the reference at which clocks show just that time of
    day. -/
theorem next_time_of_interpret (text : List Char) (now : Instant)
    (hyear : now.wall.date.year ≤ 9998) :
    (∀ (row : Row) (c : Captures) (k : Clock), row.shape.Reads (normalize text) c →
        row.category ∈ [.clockTime, .evening, .morning, .afternoon] → NamesTime row c k →
        ∃ i words, interpret Row.all text now = .ok (.resolved row.category i words) ∧
          i.frame = now.frame ∧ IsLeast {v | now.wall < v ∧ v.time = k.time} i.wall) ∧
      ∀ (category : Category) (i : Instant) (words : String),
        interpret Row.all text now = .ok (.resolved category i words) →
        category ∈ [.clockTime, .evening, .morning, .afternoon] →
        ∃ (row : Row) (c : Captures) (k : Clock), row.shape.Reads (normalize text) c ∧
          row.category = category ∧ NamesTime row c k ∧ i.frame = now.frame ∧
            IsLeast {v | now.wall < v ∧ v.time = k.time} i.wall := by
  have hleast {row : Row} {c : Captures} {k : Clock} {i : Instant}
      (h : row.shape.Reads (normalize text) c)
      (hcat : row.category ∈ [.clockTime, .evening, .morning, .afternoon])
      (hk : NamesTime row c k) (ha : Arrives now i (Reading.daysAhead ⟨row, c⟩ now) k) :
      IsLeast {v | now.wall < v ∧ v.time = k.time} i.wall := by
    rw [daysAhead_eq_daysUntilClock hcat ((timeOfDay?_eq_some_iff h).mpr hk)] at ha
    exact Wall.isLeast_time ha.day ha.time
  constructor
  · intro row c k h hcat hk
    obtain ⟨hdays, hunit, hweekday⟩ := Row.of_category_timeOfDay hcat
    have hs := not_hasStrayName_of_namesWeekday h hunit fun hf => absurd hf hweekday
    obtain ⟨i, words, hw, hf, -, ha⟩ := exists_interpret_of_namesTime hyear h hs hk hdays
    exact ⟨i, words, hw, hf, hleast h hcat hk ha⟩
  · intro category i words hi hcat
    have hdays : category.CountsDays := by
      revert hcat
      cases category <;> decide
    obtain ⟨row, c, k, h, rfl, hk, -, ha⟩ := exists_namesTime_of_interpret hdays hi
    exact ⟨row, c, k, h, rfl, hk, (frame_eq_of_interpret hi).1, hleast h hcat hk ha⟩

/-- At ten, ten o'clock is that of the next day. -/
theorem next_time_tenOClock : mondayAtTen.wall.date.year ≤ 9998 ∧
    ∃ i words, interpret Row.all "at 10am".toList mondayAtTen =
        .ok (.resolved .clockTime i words) ∧
      IsLeast {v | mondayAtTen.wall < v ∧ v.time = 10 * hour} i.wall ∧
        i = floatingAt 2024 1 16 ⟨10, 0, by decide, by decide⟩ (by decide) := by
  have hyear : mondayAtTen.wall.date.year ≤ 9998 := by decide
  have hreads : Row.atClock.shape.Reads (normalize "at 10am".toList)
      [(.hour, ['1', '0']), (.meridiem, ['a', 'm'])] :=
    Row.readAll?_eq_some_iff.mp (by decide)
  have hnames : NamesTime .atClock [(.hour, ['1', '0']), (.meridiem, ['a', 'm'])]
      ⟨10, 0, by decide, by decide⟩ :=
    ⟨by decide, by decide, by decide⟩
  obtain ⟨i, words, hi, -, hleast⟩ :=
    (next_time_of_interpret "at 10am".toList mondayAtTen hyear).1 _ _ _ hreads (by decide) hnames
  have htomorrow : interpret Row.all "at 10am".toList mondayAtTen =
      .ok (.resolved .clockTime (floatingAt 2024 1 16 ⟨10, 0, by decide, by decide⟩ (by decide))
        "Tomorrow at 10:00 AM") := by
    decide +kernel
  refine ⟨hyear, i, words, hi, hleast, ?_⟩
  rw [hi] at htomorrow
  cases htomorrow
  rfl

/-! ### Dates -/

theorem add_daysUntil_modEq (a : Nat) (n : Int) :
    (((a + (daysUntil (a % 7 : Nat) n).toNat) % 7 : Nat) : Int) ≡ n [ZMOD 7] := by
  rw [daysUntil, Int.ModEq]
  split
  · omega
  · omega

/-- The day that comes after the days until a day of the week is its next date. -/
theorem Arrives.isLeast_weekday {n : Int}
    (h : Arrives now i (daysUntil now.wall.weekday n).toNat k) :
    IsLeast {d : Date | now.wall.date < d ∧ (d.weekday : Int) ≡ n [ZMOD 7]} i.wall.date := by
  have hmem := daysUntil_mem now.wall.weekday n
  have hday : i.wall.date.index =
      now.wall.date.index + (daysUntil now.wall.weekday n).toNat := by
    rw [Wall.index_date, Wall.index_date, h.day]
  have hweekday : (i.wall.date.weekday : Int) ≡ n [ZMOD 7] := by
    rw [Wall.weekday_date, Wall.weekday, h.day]
    exact add_daysUntil_modEq now.wall.dayIndex n
  exact Date.isLeast_weekday hday (by omega) (by omega) hweekday

theorem isLeast_of_nextMonth (h : Rule.nextMonth.resolve r now = .ok i) :
    IsLeast {d : Date | now.wall.date < d ∧ d.day = 1} i.wall.date ∧
      i.wall.time = dayTime.time := by
  obtain ⟨next, hnext, rfl⟩ := atClock_eq_ok_iff.mp h
  rw [onCalendar_eq_ok_iff, Instant.firstOfNextMonth, map_eq_ok_iff] at hnext
  obtain ⟨w, hw, rfl⟩ := hnext
  rw [Instant.wall_atClock, Wall.date_atClock, Wall.time_atClock]
  exact ⟨Wall.isLeast_firstOfNextMonth hw, rfl⟩

/-- The dates that a phrase for a weekday names are those of its day of the week. -/
theorem namesWeekday_weekday_iff (h : row.shape.Reads (normalize text) c)
    (hr : row.shape.requires .weekday = true) (hn : Reading.weekday? ⟨row, c⟩ = some n)
    (d : Date) : NamesWeekday c d.weekday ↔ (d.weekday : Int) ≡ n [ZMOD 7] := by
  have hlt : n < 7 := lt_seven_of_namesWeekday ((weekday?_eq_some_iff h hr).mp hn)
  have hlt' : d.weekday < 7 := Nat.mod_lt _ (by decide)
  rw [← weekday?_eq_some_iff h hr, hn, Option.some_inj, Int.ModEq]
  omega

theorem isLeast_of_weekday? (h : row.shape.Reads (normalize text) c)
    (hr : row.shape.requires .weekday = true) (hn : Reading.weekday? ⟨row, c⟩ = some n)
    (ha : Arrives now i (daysUntil now.wall.weekday n).toNat k) :
    IsLeast {d : Date | now.wall.date < d ∧ NamesWeekday c d.weekday} i.wall.date := by
  simp only [namesWeekday_weekday_iff h hr hn]
  exact ha.isLeast_weekday

/-- A phrase that names dates is resolved to the next of them. -/
theorem isLeast_of_resolve (hcat : row.category ∈ [.weekday, .weekdayClock, .nextMonth])
    (h : row.shape.Reads (normalize text) c) (hi : Reading.resolve ⟨row, c⟩ now = .ok i) :
    IsLeast {d : Date | now.wall.date < d ∧ NamesDate row c d} i.wall.date := by
  cases row with
  | weekday =>
    obtain ⟨n, hn, ha⟩ := arrives_weekdayOfReading hi
    exact isLeast_of_weekday? h rfl hn ha
  | weekdayAtClock =>
    obtain ⟨k, n, -, hn, ha⟩ := arrives_weekdayClock hi
    exact isLeast_of_weekday? h rfl hn ha
  | nextMonth => exact (isLeast_of_nextMonth hi).1
  | _ => exact absurd hcat (by decide)

/-- Such a phrase has known names if it names a date. -/
theorem not_hasStrayName_of_namesDate
    (hcat : row.category ∈ [.weekday, .weekdayClock, .nextMonth])
    (h : row.shape.Reads (normalize text) c) {d : Date} (hd : NamesDate row c d) :
    row.category.CountsDays ∧ ¬HasStrayName c := by
  cases row with
  | weekday =>
    exact ⟨by decide, not_hasStrayName_of_namesWeekday h (by decide) fun _ => ⟨_, hd⟩⟩
  | weekdayAtClock =>
    exact ⟨by decide, not_hasStrayName_of_namesWeekday h (by decide) fun _ => ⟨_, hd⟩⟩
  | nextMonth =>
    exact ⟨by decide, not_hasStrayName_of_namesWeekday h (by decide) fun hf =>
      absurd hf (by decide)⟩
  | _ => exact absurd hcat (by decide)

/-- The next date of a day of the week, whose number counts modulo seven, and the next first day of a
    month come strictly after the date of the reference, at nine o'clock. A phrase for a weekday or
    for the next month names the next of its dates, at the time of day that it keeps or at nine. -/
theorem next_date_of_interpret (now : Instant) (hyear : now.wall.date.year ≤ 9998) :
    (∀ n : Int, ∃ w, nextWeekday now n = .ok ⟨w, now.frame, false⟩ ∧ w.time = 9 * hour ∧
        IsLeast {d : Date | now.wall.date < d ∧ (d.weekday : Int) ≡ n [ZMOD 7]} w.date ∧
        now.wall.date.index + 1 ≤ w.date.index ∧ w.date.index ≤ now.wall.date.index + 7) ∧
      (∀ r, ∃ w, Rule.nextMonth.resolve r now = .ok ⟨w, now.frame, false⟩ ∧ w.time = 9 * hour ∧
        IsLeast {d : Date | now.wall.date < d ∧ d.day = 1} w.date) ∧
      ∀ text : List Char,
        (∀ (row : Row) (c : Captures) (k : Clock), row.shape.Reads (normalize text) c →
          row.category ∈ [.weekday, .weekdayClock, .nextMonth] → NamesTime row c k →
          (∃ d, NamesDate row c d) →
          ∃ i words, interpret Row.all text now = .ok (.resolved row.category i words) ∧
            i.frame = now.frame ∧ i.wall.time = k.time ∧
              IsLeast {d | now.wall.date < d ∧ NamesDate row c d} i.wall.date) ∧
        ∀ (category : Category) (i : Instant) (words : String),
          interpret Row.all text now = .ok (.resolved category i words) →
          category ∈ [.weekday, .weekdayClock, .nextMonth] →
          ∃ (row : Row) (c : Captures) (k : Clock), row.shape.Reads (normalize text) c ∧
            row.category = category ∧ NamesTime row c k ∧ i.frame = now.frame ∧
              i.wall.time = k.time ∧
                IsLeast {d | now.wall.date < d ∧ NamesDate row c d} i.wall.date := by
  refine ⟨?_, ?_, ?_⟩
  · intro n
    obtain ⟨w, hw⟩ := (moves_nextWeekday now n).exists_eq_ok hyear
    have ha := arrives_nextWeekday hw
    have hmem := daysUntil_mem now.wall.weekday n
    have hday : w.dayIndex = now.wall.dayIndex + (daysUntil now.wall.weekday n).toNat := ha.day
    refine ⟨w, hw, ha.time, ha.isLeast_weekday, ?_⟩
    rw [Wall.index_date, Wall.index_date]
    omega
  · intro r
    obtain ⟨w, hw⟩ := (moves_firstOfNextMonth now).exists_eq_ok hyear
    have hnext : Rule.nextMonth.resolve r now = .ok ⟨w.atClock dayTime, now.frame, false⟩ := by
      rw [Rule.resolve, hw]
      rfl
    obtain ⟨hleast, htime⟩ := isLeast_of_nextMonth hnext
    exact ⟨w.atClock dayTime, hnext, htime, hleast⟩
  · intro text
    constructor
    · rintro row c k h hcat hk ⟨d, hd⟩
      obtain ⟨hdays, hs⟩ := not_hasStrayName_of_namesDate hcat h hd
      obtain ⟨i, words, hw, hf, hi, ha⟩ := exists_interpret_of_namesTime hyear h hs hk hdays
      exact ⟨i, words, hw, hf, ha.time, isLeast_of_resolve hcat h hi⟩
    · intro category i words hi hcat
      have hdays : category.CountsDays := by
        revert hcat
        cases category <;> decide
      obtain ⟨row, c, k, h, rfl, hk, hr, ha⟩ := exists_namesTime_of_interpret hdays hi
      exact ⟨row, c, k, h, rfl, hk, (frame_eq_of_interpret hi).1, ha.time,
        isLeast_of_resolve hcat h hr⟩

/-- On a Monday, the next Monday is a week ahead, and Friday is that of the same week. -/
theorem next_date_mondayAtTen : mondayAtTen.wall.date.year ≤ 9998 ∧
    (∃ w, nextWeekday mondayAtTen (-7) = .ok ⟨w, .floating, false⟩ ∧ w.date.day = 22 ∧
      IsLeast {d : Date | mondayAtTen.wall.date < d ∧ (d.weekday : Int) ≡ -7 [ZMOD 7]} w.date) ∧
    ∃ i words, interpret Row.all "fri at 5pm".toList mondayAtTen =
        .ok (.resolved .weekdayClock i words) ∧ i.wall.time = 17 * hour ∧ i.wall.date.day = 19 := by
  have hyear : mondayAtTen.wall.date.year ≤ 9998 := by decide
  have hreads : Row.weekdayAtClock.shape.Reads (normalize "fri at 5pm".toList)
      [(.weekday, ['f', 'r', 'i']), (.hour, ['5']), (.meridiem, ['p', 'm'])] :=
    Row.readAll?_eq_some_iff.mp (by decide)
  have htime : NamesTime .weekdayAtClock
      [(.weekday, ['f', 'r', 'i']), (.hour, ['5']), (.meridiem, ['p', 'm'])]
      ⟨17, 0, by decide, by decide⟩ :=
    ⟨by decide, by decide, by decide⟩
  have hdate : NamesDate .weekdayAtClock
      [(.weekday, ['f', 'r', 'i']), (.hour, ['5']), (.meridiem, ['p', 'm'])]
      (.ofNumbers 2024 1 19 (by decide)) :=
    ⟨['f', 'r', 'i'], "Friday", rfl, by decide, by decide⟩
  obtain ⟨hweekday, -, hphrase⟩ := next_date_of_interpret mondayAtTen hyear
  obtain ⟨w, hw, -, hleast, -⟩ := hweekday (-7)
  obtain ⟨i, words, hi, -, hclock, -⟩ :=
    (hphrase "fri at 5pm".toList).1 _ _ _ hreads (by decide) htime ⟨_, hdate⟩
  have hnext : nextWeekday mondayAtTen (-7) =
      .ok (floatingAt 2024 1 22 dayTime (by decide)) := by
    decide
  have hfriday : interpret Row.all "fri at 5pm".toList mondayAtTen =
      .ok (.resolved .weekdayClock
        (floatingAt 2024 1 19 ⟨17, 0, by decide, by decide⟩ (by decide))
        "Friday, Jan 19 at 5:00 PM") := by
    decide +kernel
  refine ⟨hyear, ⟨w, hw, ?_, hleast⟩, i, words, hi, hclock, ?_⟩
  · rw [hw] at hnext
    cases hnext
    decide
  · rw [hi] at hfriday
    cases hfriday
    decide

end Almanac.Phrase
