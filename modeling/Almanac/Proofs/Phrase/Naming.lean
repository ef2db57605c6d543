import Almanac.Proofs.Calendar.Occurrence
import Almanac.Proofs.Phrase.Ahead

/-!
# What a phrase names

A phrase that counts days names a time of day: the one that it keeps, read with its half of the day,
or the one for its part of the day. A weekday is named by the beginning of its name, and a phrase may
name dates: all those of a weekday, or the first days of the months.
-/

namespace Almanac.Phrase

open Calendar Text Shape

variable {row : Row} {t v : List Char} {c : Captures} {k l : Clock} {hour minute n : Nat}
  {now : Instant}

theorem clock_eq_iff : k = l ↔ k.hour = l.hour ∧ k.minute = l.minute := by
  cases k
  cases l
  simp

/-! ### Times of day that are kept -/

/-- Whether the time of day that is kept is that of a clock. Without a half of the day its hour is
    that of the clock; in a half of the day it counts from 1 to 12, and twelve comes first. -/
def NamesClock (c : Captures) (k : Clock) : Prop :=
  k.minute = numberAt c .minute ∧
    match c.lookup .meridiem with
    | none   => k.hour = numberAt c .hour
    | some v => (1 ≤ numberAt c .hour ∧ numberAt c .hour ≤ 12) ∧
        k.hour = numberAt c .hour % 12 + if v = ['p', 'm'] then 12 else 0

/-- In a normal form, a half of the day is kept as it is read. -/
theorem eq_am_or_pm_of_lookup (h : row.shape.Reads (normalize t) c)
    (hf : c.lookup .meridiem = some v) : v = ['a', 'm'] ∨ v = ['p', 'm'] := by
  obtain ⟨w, hw, he⟩ := exists_half_of_lookup h hf
  have hv : ∀ x ∈ v, ¬IsStray x := by
    intro x hx hs
    have hmem : caseless x ∈ w.toList := he ▸ List.mem_map_of_mem hx
    rcases hw with rfl | rfl <;> rcases hs with rfl | rfl <;> exact absurd hmem (by decide)
  have hvw := congrArg String.toList (eq_ofList_of_map_caseless (isSmall_of_lookup h hf) hv he)
  rw [String.toList_ofList] at hvw
  rcases hw with rfl | rfl
  · exact .inl hvw
  · exact .inr hvw

theorem readClock_none_eq_ok_iff :
    readClock hour minute none = .ok k ↔ k.minute = minute ∧ k.hour = hour := by
  have hh := k.hour_lt
  have hm := k.minute_lt
  rw [readClock]
  split
  · simp; omega
  · simp only [Option.filter_none]
    split
    · simp; omega
    · simp only [Except.ok.injEq, clock_eq_iff, Int.toNat_natCast]
      omega

theorem halfDayHour_eq (hv : v = ['a', 'm'] ∨ v = ['p', 'm']) (hh : hour ≤ 12) :
    halfDayHour (lowerString (String.ofList v)) hour =
      hour % 12 + if v = ['p', 'm'] then 12 else 0 := by
  have hall : ∀ n < 13, halfDayHour "am" n = n % 12 ∧ halfDayHour "pm" n = n % 12 + 12 := by
    decide
  have hhour := hall hour (Nat.lt_succ_of_le hh)
  rcases hv with rfl | rfl
  · rw [lowerString_of_isLower (by decide)]
    exact hhour.1
  · rw [lowerString_of_isLower (by decide)]
    exact hhour.2

theorem readClock_some_eq_ok_iff (hv : v = ['a', 'm'] ∨ v = ['p', 'm']) :
    readClock hour minute (some (String.ofList v)) = .ok k ↔
      k.minute = minute ∧ (1 ≤ hour ∧ hour ≤ 12) ∧
        k.hour = hour % 12 + if v = ['p', 'm'] then 12 else 0 := by
  have hm := k.minute_lt
  have hne : String.ofList v ≠ "" := by
    rcases hv with rfl | rfl
    · decide
    · decide
  rw [readClock, Option.filter_eq_some_iff.mpr ⟨rfl, by simpa using hne⟩]
  dsimp only
  split
  · simp; omega
  · split
    · simp; omega
    · next hh =>
      have hhour : hour ≤ 12 := by omega
      simp only [Except.ok.injEq, clock_eq_iff, Int.toNat_natCast, halfDayHour_eq hv hhour]
      omega

/-- Where an hour is needed, the time of day is found exactly if it is that of a clock. -/
theorem clock_eq_ok_iff (h : row.shape.Reads (normalize t) c)
    (hr : row.shape.requires .hour = true) :
    Reading.clock ⟨row, c⟩ none = .ok k ↔ NamesClock c k := by
  obtain ⟨v, hv⟩ := h.exists_lookup hr
  have hnum : numberAt c .hour = digitsValue v := by rw [numberAt, hv, Option.getD_some]
  rw [clock_of_lookup_eq_some (Row.of_requires_hour hr).1 hv, NamesClock, hnum]
  have hrefused {x : Except Refusal Clock} : x.mapError Fault.refused = .ok k ↔ x = .ok k := by
    cases x <;> simp [Except.mapError]
  rw [hrefused]
  cases hhalf : c.lookup .meridiem with
  | none => exact readClock_none_eq_ok_iff
  | some m => exact readClock_some_eq_ok_iff (eq_am_or_pm_of_lookup h hhalf)

/-! ### Times of day of phrases -/

/-- Whether a phrase names the time of day of a clock on the day to which it counts: the one that it
    keeps, or the one for its part of the day. -/
def NamesTime (row : Row) (c : Captures) (k : Clock) : Prop :=
  match row with
  | .atClock         => NamesClock c k
  | .tomorrowAtClock => NamesClock c k
  | .weekdayAtClock  => NamesClock c k
  | .thisMorning     => k.hour = 8 ∧ k.minute = 0
  | .thisAfternoon   => k.hour = 14 ∧ k.minute = 0
  | .thisEvening     => k.hour = 19 ∧ k.minute = 0
  | .tomorrow        => k.hour = 9 ∧ k.minute = 0
  | .weekday         => k.hour = 9 ∧ k.minute = 0
  | .nextWeek        => k.hour = 9 ∧ k.minute = 0
  | .nextMonth       => k.hour = 9 ∧ k.minute = 0
  | _                => False

theorem some_eq_some_iff_clock (l : Clock) :
    some l = some k ↔ k.hour = l.hour ∧ k.minute = l.minute := by
  rw [Option.some_inj, eq_comm, clock_eq_iff]

theorem toOption_eq_some_iff {α ε : Type} {x : Except ε α} {a : α} :
    x.toOption = some a ↔ x = .ok a := by
  cases x <;> simp [Except.toOption]

theorem timeOfDay?_eq_some_iff (h : row.shape.Reads (normalize t) c) :
    Reading.timeOfDay? ⟨row, c⟩ = some k ↔ NamesTime row c k := by
  cases row with
  | atClock => exact toOption_eq_some_iff.trans (clock_eq_ok_iff h rfl)
  | tomorrowAtClock => exact toOption_eq_some_iff.trans (clock_eq_ok_iff h rfl)
  | weekdayAtClock => exact toOption_eq_some_iff.trans (clock_eq_ok_iff h rfl)
  | thisMorning => exact some_eq_some_iff_clock morningTime
  | thisAfternoon => exact some_eq_some_iff_clock afternoonTime
  | thisEvening => exact some_eq_some_iff_clock eveningTime
  | tomorrow => exact some_eq_some_iff_clock dayTime
  | weekday => exact some_eq_some_iff_clock dayTime
  | nextWeek => exact some_eq_some_iff_clock dayTime
  | nextMonth => exact some_eq_some_iff_clock dayTime
  | _ => exact iff_of_false (by rintro ⟨⟩) id

/-- A phrase that names a time of day denotes real values. -/
theorem NamesTime.denotes (hk : NamesTime row c k) (h : row.shape.Reads (normalize t) c) :
    Denotes row c now := by
  have hkept (hr : row.shape.requires .hour = true) (hk : NamesClock c k) : Denotes row c now := by
    rw [← clock_eq_ok_iff h hr] at hk
    rcases clock_cases none h (Row.of_requires_hour hr).1 (.inl hr) with ⟨hc, -⟩ | ⟨-, why, hw⟩
    · exact .of_hasRealClock h hr hc
    · rw [hk] at hw
      cases hw
  cases row with
  | atClock => exact hkept rfl hk
  | tomorrowAtClock => exact hkept rfl hk
  | weekdayAtClock => exact hkept rfl hk
  | inMinutes => cases hk
  | inHours => cases hk
  | inDays => cases hk
  | inWeeks => cases hk
  | slashDate => cases hk
  | isoDate => cases hk
  | _ => exact .of_isUnnumbered h (by decide)

/-! ### Weekdays -/

/-- Whether the weekday that is kept is the beginning of the name of a day of the week. -/
def NamesWeekday (c : Captures) (n : Nat) : Prop :=
  ∃ v name, c.lookup .weekday = some v ∧ (name, n) ∈ longWeekdays.zipIdx ∧
    v <+: name.toList.map caseless

theorem namesWeekday_iff (hv : c.lookup .weekday = some v) :
    NamesWeekday c n ↔ n ∈ weekdaysWith v := by
  simp [NamesWeekday, weekdaysWith, hv]

/-- No name of a day of the week has a stray letter. -/
theorem not_isStray_of_namesWeekday (hn : NamesWeekday c n) (hv : c.lookup .weekday = some v)
    {x : Char} (hx : x ∈ v) : ¬IsStray x := by
  have hall : longWeekdays.zipIdx.all
      (fun e => (e.1.toList.map caseless).all fun x => !decide (IsStray x)) = true := by
    decide
  obtain ⟨w, name, hw, hmem, hbegins⟩ := hn
  obtain rfl : v = w := Option.some.inj (hv.symm.trans hw)
  have hx' := List.all_eq_true.mp (List.all_eq_true.mp hall _ hmem) x (hbegins.subset hx)
  rwa [Bool.not_eq_true', decide_eq_false_iff_not] at hx'

/-- A phrase without a unit has a stray name only in its weekday. -/
theorem exists_isStray_of_hasStrayName (h : row.shape.Reads t c) (hu : .unit ∉ row.shape.fields)
    (hs : HasStrayName c) : ∃ v x, c.lookup .weekday = some v ∧ x ∈ v ∧ IsStray x := by
  obtain ⟨f, v, x, rfl | rfl, hv, hx, hstray⟩ := hs
  · rw [lookup_eq_none_of_not_mem h hu] at hv
    cases hv
  · exact ⟨v, x, hv, hx, hstray⟩

/-- A row that needs a weekday has no unit. -/
theorem Row.of_requires_weekday (h : row.shape.requires .weekday = true) :
    .unit ∉ row.shape.fields := by
  revert h
  cases row <;> decide

/-- Where a weekday is needed, its meaning is the day of the week whose name it begins. -/
theorem weekday?_eq_some_iff (h : row.shape.Reads (normalize t) c)
    (hr : row.shape.requires .weekday = true) :
    Reading.weekday? ⟨row, c⟩ = some n ↔ NamesWeekday c n := by
  obtain ⟨v, hv⟩ := h.exists_lookup hr
  have hu := Row.of_requires_weekday hr
  have hword : Reading.weekday? ⟨row, c⟩ = (weekdayOf (String.ofList v)).toOption := by
    rw [Reading.weekday?, Reading.get?, hv, Option.getD_some]
  rw [hword]
  by_cases hs : HasStrayName c
  · obtain ⟨w, x, hw, hx, hstray⟩ := exists_isStray_of_hasStrayName h hu hs
    obtain rfl : v = w := Option.some.inj (hv.symm.trans hw)
    rw [weekdayOf_of_isStray hx hstray]
    exact iff_of_false (by rintro ⟨⟩) fun hn => not_isStray_of_namesWeekday hn hv hx hstray
  · obtain ⟨m, hm, hone⟩ := exists_weekdayOf h hv hs
    rw [hm, namesWeekday_iff hv, hone, List.mem_singleton]
    exact Option.some_inj.trans eq_comm

/-- A phrase without a unit has known names if its weekday, where it has one, begins the name of a
    day of the week. -/
theorem not_hasStrayName_of_namesWeekday (h : row.shape.Reads t c) (hu : .unit ∉ row.shape.fields)
    (hw : .weekday ∈ row.shape.fields → ∃ n, NamesWeekday c n) : ¬HasStrayName c := by
  intro hs
  obtain ⟨v, x, hv, hx, hstray⟩ := exists_isStray_of_hasStrayName h hu hs
  by_cases hf : .weekday ∈ row.shape.fields
  · obtain ⟨n, hn⟩ := hw hf
    exact not_isStray_of_namesWeekday hn hv hx hstray
  · rw [lookup_eq_none_of_not_mem h hf] at hv
    cases hv

theorem lt_seven_of_namesWeekday (h : NamesWeekday c n) : n < 7 := by
  obtain ⟨v, name, -, hmem, -⟩ := h
  have hall : ∀ e ∈ longWeekdays.zipIdx, e.2 < 7 := by decide
  exact hall _ hmem

/-! ### Dates -/

/-- Whether a phrase names a date: one for a weekday names all its dates, and one for the next month
    the first days of months. -/
def NamesDate (row : Row) (c : Captures) (d : Date) : Prop :=
  match row with
  | .weekday        => NamesWeekday c d.weekday
  | .weekdayAtClock => NamesWeekday c d.weekday
  | .nextMonth      => d.day = 1
  | _               => False

end Almanac.Phrase
