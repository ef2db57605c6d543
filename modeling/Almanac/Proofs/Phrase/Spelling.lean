import Almanac.Proofs.Phrase.Amount
import Almanac.Proofs.Phrase.DateText
import Almanac.Proofs.Phrase.Ending
import Almanac.Proofs.Phrase.Occurrence

/-!
# Spellings

A day of the week has several spellings, full and short, and "next", "this" or "on" may stand before
them; so have the day after today and the units of time. Before a time of day there may be the word
"at". None of this makes a difference to what is made of a phrase, whatever time of day it ends with,
but for the unit that is named when its amount is turned down.
-/

namespace Almanac.Phrase

open Calendar Text Shape

variable {row : Row} {s t ds : List Char} {c d : Captures} {now i : Instant} {m n u : Nat}
  {unit unit' : String}

/-! ### Openings -/

/-- Whether a text is made of words in small letters, set apart by single spaces. -/
def IsOpening (s : List Char) : Prop :=
  s.all (fun c => c == ' ' || c.isLower) = true ∧ spaced (words s) = s ∧ words s ≠ []

instance (s : List Char) : Decidable (IsOpening s) := inferInstanceAs (Decidable (_ ∧ _ ∧ _))

theorem isTrailing_of_isLower {x : Char} (h : x.isLower = true) : isTrailing x = false := by
  have hx := toNat_of_isLower h
  rw [isTrailing_eq_inRanges, Bool.eq_false_iff, ne_eq, inRanges_iff]
  rintro ⟨r, hr, hle⟩
  have hall : ∀ r ∈ trailingRanges, r.2 < 97 ∨ 122 < r.1 := by decide
  have hr := hall r hr
  omega

theorem IsOpening.isSettled (h : IsOpening s) : IsSettled s := by
  obtain ⟨hletters, hspaced, -⟩ := h
  intro x hx
  have hmem := List.mem_of_mem_getLast? hx
  rw [← hspaced] at hx
  obtain ⟨w, hw, hxw⟩ :=
    exists_mem_of_getLast?_spaced (fun w hw => (forall_mem_words s w hw).1) hx
  have hblank := (forall_mem_words s w hw).2 x hxw
  have hx' := List.all_eq_true.mp hletters x hmem
  rw [Bool.or_eq_true, beq_iff_eq] at hx'
  rcases hx' with rfl | hlower
  · cases hblank
  · exact isTrailing_of_isLower hlower

theorem IsOpening.normalize_eq (h : IsOpening s) : normalize s = s := by
  rw [Phrase.normalize_eq, lower_of_isLower h.1, dropMarks_spaced_words h.isSettled, h.2.1]

theorem IsOpening.normalize_append (h : IsOpening s) (ht : EndsOnce t) (hne : normalize t ≠ []) :
    normalize (s ++ ' ' :: t) = s ++ ' ' :: normalize t := by
  obtain ⟨hletters, hspaced, hwords⟩ := h
  rw [normalize_append_cons (by decide) (by rwa [lower_of_isLower hletters]) ht hne,
    lower_of_isLower hletters, hspaced]

/-! ### Times of day -/

/-- Whether a text is a time of day, as it may stand at the end of a phrase. -/
def IsClockText (t : List Char) : Prop :=
  ∃ c, clockShape.Reads (normalize t) c

instance (t : List Char) : Decidable (IsClockText t) :=
  decidable_of_iff ((clockShape.readAll? (normalize t)).isSome = true) <| by
    simp only [Option.isSome_iff_exists, Shape.readAll?_eq_some_iff (s := clockShape) (by decide),
      IsClockText]

theorem endsOnce_of_reads (h : clockShape.Reads (normalize t) c) :
    EndsOnce t ∧ normalize t ≠ [] := by
  constructor
  · by_contra hends
    obtain ⟨x, hx, hmark⟩ := exists_endMark_normalize hends
    rw [h.isEndMark (by decide) (List.mem_of_mem_getLast? hx)] at hmark
    cases hmark
  · intro hnil
    have hempty := h.holds
    rw [hnil] at hempty
    exact absurd (Outline.canEnd_of_holds hempty) (by decide)

/-- A phrase for a day, and for a time of day after it if there is one, with the word "at" before
    that or without it. -/
def dayText (day : List Char) (withAt : Bool) : Option (List Char) → List Char
  | none   => day
  | some t => (if withAt then day ++ " at".toList else day) ++ ' ' :: t

theorem normalize_dayText (hs : IsOpening s) (hs' : IsOpening (s ++ " at".toList)) (withAt : Bool)
    (ht : EndsOnce t) (hne : normalize t ≠ []) :
    normalize (dayText s withAt (some t)) =
      s ++ (if withAt then " at " else " ").toList ++ normalize t := by
  cases withAt with
  | true =>
    rw [dayText, if_pos rfl, hs'.normalize_append ht hne]
    simp
  | false =>
    rw [dayText, if_neg Bool.false_ne_true, hs.normalize_append ht hne]
    simp

/-- A day is read with a time of day after it as it is read alone. -/
theorem reads_dayText {shape : Shape} (hs : IsOpening s) (hs' : IsOpening (s ++ " at".toList))
    (hday : shape.Reads s d) (hc : clockShape.Reads (normalize t) c) (withAt : Bool) :
    (shape ++ atShape ++ clockShape).Reads (normalize (dayText s withAt (some t))) (d ++ c) := by
  have hat : atShape.Reads (if withAt then " at " else " ").toList [] := by
    cases withAt with
    | true => exact reads_at
    | false => exact reads_gap.andThen .skipped
  obtain ⟨hends, hne⟩ := endsOnce_of_reads hc
  rw [normalize_dayText hs hs' withAt hends hne]
  simpa using (hday.andThen hat).andThen hc

/-- Phrases of one category that are resolved alike are interpreted alike. -/
theorem interpret_congr {row' : Row} {c' : Captures} {t' : List Char}
    (h : row.shape.Reads (normalize t) c) (h' : row'.shape.Reads (normalize t') c')
    (hcategory : row.category = row'.category)
    (hresolve : Reading.resolve ⟨row, c⟩ now = Reading.resolve ⟨row', c'⟩ now) :
    interpret Row.all t now = interpret Row.all t' now := by
  rw [interpret_of_reads h, interpret_of_reads h']
  simp only [Reading.interpret, hresolve, hcategory]

/-! ### Days of the week -/

/-- The spellings of the days of the week, with their numbers; Monday is 0. -/
def weekdaySpellings : List (String × Nat) :=
  [("monday", 0), ("mon", 0), ("tuesday", 1), ("tues", 1), ("tue", 1), ("wednesday", 2), ("wed", 2),
    ("thursday", 3), ("thurs", 3), ("thu", 3), ("friday", 4), ("fri", 4), ("saturday", 5), ("sat", 5),
    ("sunday", 6), ("sun", 6)]

/-- What may stand before them. -/
def weekdayLeads : List String :=
  ["", "next ", "this ", "on "]

/-- The spellings are the words that are read for a weekday, and no others. -/
theorem slots_weekdayShape :
    weekdayShape.slots = [(.weekday, .oneOf (weekdaySpellings.map Prod.fst))] := by
  decide

variable {name name' lead lead' : String} {clock : Option (List Char)}

theorem isOpening_weekday (hlead : lead ∈ weekdayLeads) (hname : (name, n) ∈ weekdaySpellings) :
    IsOpening (lead.toList ++ name.toList) ∧
      IsOpening (lead.toList ++ name.toList ++ " at".toList) := by
  have hall : ∀ lead ∈ weekdayLeads, ∀ e ∈ weekdaySpellings,
      IsOpening (lead.toList ++ e.1.toList) ∧
        IsOpening (lead.toList ++ e.1.toList ++ " at".toList) := by
    decide +kernel
  exact hall lead hlead (name, n) hname

theorem reads_weekday (hlead : lead ∈ weekdayLeads) (hname : (name, n) ∈ weekdaySpellings) :
    weekdayShape.Reads (lead.toList ++ name.toList) [(.weekday, name.toList)] := by
  have hall : ∀ lead ∈ weekdayLeads, ∀ e ∈ weekdaySpellings,
      Row.weekday.shape.readAll? (lead.toList ++ e.1.toList) = some [(.weekday, e.1.toList)] := by
    decide +kernel
  exact Row.readAll?_eq_some_iff.mp (hall lead hlead (name, n) hname)

/-- The next date of a day of the week, at the time of day that is kept, if there is one. -/
def weekdayAt (now : Instant) (n : Nat) : Option Captures → Except Fault Instant
  | none   => nextWeekday now n
  | some c => do
    let next ← nextWeekday now n
    .ok (next.atClock (← Reading.clock ⟨.weekdayAtClock, c⟩ none))

/-- A phrase for a day of the week is resolved by the number of the day and the time of day, whatever
    the spelling of the day. -/
theorem exists_reads_weekdayText (hclock : ∀ t ∈ clock, IsClockText t) :
    ∃ (row : Row) (kept : Option Captures), ∀ (n : Nat) (name lead : String) (withAt : Bool),
      (name, n) ∈ weekdaySpellings → lead ∈ weekdayLeads →
        ∃ c, row.shape.Reads (normalize (dayText (lead.toList ++ name.toList) withAt clock)) c ∧
          ∀ now, Reading.resolve ⟨row, c⟩ now = weekdayAt now n kept := by
  have hweekday {n : Nat} {name : String} (h : (name, n) ∈ weekdaySpellings) :
      weekdayOf (String.ofList name.toList) = .ok n := by
    have hall : ∀ e ∈ weekdaySpellings, weekdayOf e.1 = .ok e.2 := by decide +kernel
    rw [String.ofList_toList]
    exact hall (name, n) h
  cases clock with
  | none =>
    refine ⟨.weekday, none, ?_⟩
    intro n name lead withAt hname hlead
    refine ⟨[(.weekday, name.toList)], ?_, ?_⟩
    · rw [dayText, (isOpening_weekday hlead hname).1.normalize_eq]
      exact reads_weekday hlead hname
    · intro now
      exact weekdayOfReading_eq (by decide) rfl (hweekday hname)
  | some t =>
    obtain ⟨c, hc⟩ := hclock t rfl
    refine ⟨.weekdayAtClock, some c, ?_⟩
    intro n name lead withAt hname hlead
    obtain ⟨hopen, hopen'⟩ := isOpening_weekday hlead hname
    refine ⟨(.weekday, name.toList) :: c,
      reads_dayText hopen hopen' (reads_weekday hlead hname) hc withAt, ?_⟩
    intro now
    rw [Reading.resolve, Row.rule, Rule.resolve,
      weekdayOfReading_eq (by decide) rfl (hweekday hname)]
    rfl

/-- It leads to that day of the week. -/
theorem weekday_of_weekdayAt {kept : Option Captures} (hn : n < 7)
    (h : weekdayAt now n kept = .ok i) : i.wall.date.weekday = n := by
  obtain ⟨next, hnext, hdate⟩ : ∃ next, nextWeekday now n = .ok next ∧
      i.wall.date = next.wall.date := by
    cases kept with
    | none => exact ⟨i, h, rfl⟩
    | some c =>
      obtain ⟨next, k, hnext, -, rfl⟩ := atKeptClock_eq_ok_iff.mp h
      exact ⟨next, hnext, by rw [Instant.wall_atClock, Wall.date_atClock]⟩
  have hmod := (arrives_nextWeekday hnext).isLeast_weekday.1.2
  have hlt : next.wall.date.weekday < 7 := Nat.mod_lt _ (by decide)
  rw [Int.ModEq] at hmod
  rw [hdate]
  omega

/-! ### Tomorrow and today -/

/-- The spellings of the day after today. -/
def tomorrowSpellings : List String :=
  ["tomorrow", "tmrw"]

/-- A phrase for the day after today is read in the same way, whatever its spelling. -/
theorem exists_reads_tomorrowText (hclock : ∀ t ∈ clock, IsClockText t) :
    ∃ (row : Row) (c : Captures), ∀ day ∈ tomorrowSpellings, ∀ withAt,
      row.shape.Reads (normalize (dayText day.toList withAt clock)) c := by
  have hopen : ∀ day ∈ tomorrowSpellings,
      IsOpening day.toList ∧ IsOpening (day.toList ++ " at".toList) := by
    decide +kernel
  have hday : ∀ day ∈ tomorrowSpellings, tomorrowShape.Reads day.toList [] := by
    have hall : ∀ day ∈ tomorrowSpellings,
        Row.tomorrow.shape.readAll? day.toList = some [] := by
      decide +kernel
    exact fun day h => Row.readAll?_eq_some_iff.mp (hall day h)
  cases clock with
  | none =>
    refine ⟨.tomorrow, [], ?_⟩
    intro day h withAt
    rw [dayText, (hopen day h).1.normalize_eq]
    exact hday day h
  | some t =>
    obtain ⟨c, hc⟩ := hclock t rfl
    exact ⟨.tomorrowAtClock, c, fun day h =>
      reads_dayText (hopen day h).1 (hopen day h).2 (hday day h) hc⟩

/-- A time of day may be said to be that of today. -/
theorem reads_atClock (hc : clockShape.Reads (normalize t) c) :
    Row.atClock.shape.Reads (normalize ("today at ".toList ++ t)) c ∧
      Row.atClock.shape.Reads (normalize ("at ".toList ++ t)) c := by
  obtain ⟨hends, hne⟩ := endsOnce_of_reads hc
  have hat : (word "at").Reads "at".toList [] := .word (by decide)
  have htoday : (word "today").Reads "today".toList [] := .word (by decide)
  have hread {v : List Char} (hv : (optional (word "today" ++ gap)).Reads v []) :
      Row.atClock.shape.Reads (v ++ "at".toList ++ ' ' :: normalize t) c := by
    simpa [Row.shape] using ((hv.andThen hat).andThen reads_gap).andThen hc
  have hopen : IsOpening "today at".toList := by decide
  have hopen' : IsOpening "at".toList := by decide
  constructor
  · have hn : normalize ("today at ".toList ++ t) = "today at".toList ++ ' ' :: normalize t :=
      hopen.normalize_append hends hne
    rw [hn]
    exact hread (htoday.andThen reads_gap).taken
  · have hn : normalize ("at ".toList ++ t) = "at".toList ++ ' ' :: normalize t :=
      hopen'.normalize_append hends hne
    rw [hn]
    exact hread .skipped

/-! ### Units -/

/-- A refusal as it is told for another spelling of the unit. -/
def Refusal.inUnit (unit : String) : Refusal → Refusal
  | .notPositive n _ => .notPositive n unit
  | .tooLarge n _    => .tooLarge n unit
  | why              => why

/-- A fault as it is told for another spelling of the unit. -/
def Fault.inUnit (unit : String) : Fault → Fault
  | .refused why => .refused (why.inUnit unit)
  | e            => e

/-- An interpretation as it is told for another spelling of the unit. -/
def Interpretation.inUnit (unit : String) : Interpretation → Interpretation
  | .failed (.refused why) => .failed (.refused (why.inUnit unit))
  | result                 => result

theorem interpret_amountText_nil (hu : (unit, u) ∈ unitNames) (now : Instant) :
    interpret Row.all (amountText [] unit) now = .ok (.failed .unmatched) := by
  have hne : normalize (amountText [] unit) ≠ [] := by
    rw [normalize_amountText_nil hu]
    exact List.cons_ne_nil _ _
  have hfind : Reading.find? Row.all (normalize (amountText [] unit)) = none :=
    Reading.find?_eq_none_iff.mpr fun row _ c => not_reads_amountText_nil hu
  simp only [interpret, if_neg hne, hfind]

/-- An amount is resolved by the length of its unit. -/
theorem resolve_amount (hu : (unit, u) ∈ unitNames) (hrow : row.unit? = some u) (now : Instant) :
    Reading.resolve ⟨row, [(.amount, ds), (.unit, unit.toList)]⟩ now =
      if maxDigits < ds.length then .error (.refused (.amountTooLong ds.length))
      else if digitsValue ds = 0 then .error (.refused (.notPositive (digitsValue ds) unit))
      else (now.shift (u * digitsValue ds)).mapError fun _ =>
        .refused (.tooLarge (digitsValue ds) unit) := by
  have hunit : ∀ e ∈ unitNames, unitOf e.1 = .ok e.2 := by decide
  have hname : unitOf (String.ofList unit.toList) = .ok u := by
    rw [String.ofList_toList]
    exact hunit (unit, u) hu
  have hamount : List.lookup Field.amount [(.amount, ds), (.unit, unit.toList)] = some ds := rfl
  obtain ⟨hr, hrule, -⟩ := Row.of_unit? hrow
  rw [Reading.resolve, hrule, Rule.resolve,
    relativeOffsetOf_eq (mem_fields_of_requires hr) (Row.of_requires_unit hr).1 rfl hname,
    String.ofList_toList, numberAt, hamount, Option.getD_some]

theorem resolve_amount_inUnit {row' : Row} (hu : (unit, u) ∈ unitNames)
    (hu' : (unit', u) ∈ unitNames) (hrow : row.unit? = some u) (hrow' : row'.unit? = some u)
    (now : Instant) :
    Reading.resolve ⟨row', [(.amount, ds), (.unit, unit'.toList)]⟩ now =
      (Reading.resolve ⟨row, [(.amount, ds), (.unit, unit.toList)]⟩ now).mapError
        (Fault.inUnit unit') := by
  rw [resolve_amount hu hrow, resolve_amount hu' hrow']
  split
  · rfl
  · split
    · rfl
    · cases now.shift (u * digitsValue ds) with
      | ok i => rfl
      | error e => rfl

theorem interpret_inUnit {r r' : Reading} (hcategory : r'.row.category = r.row.category)
    (h : r'.resolve now = (r.resolve now).mapError (Fault.inUnit unit)) :
    r'.interpret now = (r.interpret now).map (Interpretation.inUnit unit) := by
  rw [Reading.interpret, Reading.interpret, h, hcategory]
  cases r.resolve now with
  | ok i =>
    cases hw : restate i now with
    | ok words => simp [Except.mapError, hw, Except.map, Interpretation.inUnit]
    | error e => simp [Except.mapError, hw, Except.map]
  | error e =>
    cases e with
    | refused why => rfl
    | _ => rfl

/-- What is made of an amount does not depend on the spelling of its unit, but for the unit that is
    named when it is turned down. -/
theorem interpret_amountText_inUnit (hunit : (unit, m) ∈ unitMinutes)
    (hunit' : (unit', m) ∈ unitMinutes) (hdigits : ∀ x ∈ ds, isDigit x = true) (now : Instant) :
    interpret Row.all (amountText ds unit') now =
      (interpret Row.all (amountText ds unit) now).map (Interpretation.inUnit unit') := by
  have hu := mem_unitNames_of_mem_unitMinutes hunit
  have hu' := mem_unitNames_of_mem_unitMinutes hunit'
  by_cases hne : ds = []
  · obtain rfl := hne
    rw [interpret_amountText_nil hu, interpret_amountText_nil hu']
    rfl
  · obtain ⟨row, hrow, hreads⟩ := exists_reads_amountText hu hne hdigits
    obtain ⟨row', hrow', hreads'⟩ := exists_reads_amountText hu' hne hdigits
    have hcategory := (Row.of_unit? hrow').2.2.trans (Row.of_unit? hrow).2.2.symm
    rw [interpret_of_reads hreads, interpret_of_reads hreads']
    exact interpret_inUnit hcategory (resolve_amount_inUnit hu hu' hrow hrow' now)

/-! ### All spellings -/

/-- **Spellings make no difference.** At any reference instant, and with any time of day after it or
    none, a phrase for a day of the week means the same in every spelling, whatever stands before the
    day and whether the time of day is said to be "at" its hour, and leads to that day of the week.
    So do the spellings of the day after today, a time of day and that of today, and an amount of a
    unit in every spelling of the unit, but for the unit that is named when it is turned down. -/
theorem interpret_eq_of_spelling (now : Instant) (hclock : ∀ t ∈ clock, IsClockText t) :
    (∀ (n : Nat) (name name' lead lead' : String) (withAt withAt' : Bool),
        (name, n) ∈ weekdaySpellings → (name', n) ∈ weekdaySpellings →
        lead ∈ weekdayLeads → lead' ∈ weekdayLeads →
        interpret Row.all (dayText (lead.toList ++ name.toList) withAt clock) now =
            interpret Row.all (dayText (lead'.toList ++ name'.toList) withAt' clock) now ∧
          ∀ category i words,
            interpret Row.all (dayText (lead.toList ++ name.toList) withAt clock) now =
              .ok (.resolved category i words) → i.wall.date.weekday = n) ∧
      (∀ day ∈ tomorrowSpellings, ∀ day' ∈ tomorrowSpellings, ∀ withAt withAt' : Bool,
        interpret Row.all (dayText day.toList withAt clock) now =
          interpret Row.all (dayText day'.toList withAt' clock) now) ∧
      (∀ t ∈ clock, interpret Row.all ("today at ".toList ++ t) now =
        interpret Row.all ("at ".toList ++ t) now) ∧
      ∀ (ds : List Char) (unit unit' : String) (m : Nat), (∀ x ∈ ds, isDigit x = true) →
        (unit, m) ∈ unitMinutes → (unit', m) ∈ unitMinutes →
        interpret Row.all (amountText ds unit') now =
          (interpret Row.all (amountText ds unit) now).map (Interpretation.inUnit unit') := by
  refine ⟨?_, ?_, ?_, ?_⟩
  · intro n name name' lead lead' withAt withAt' hname hname' hlead hlead'
    obtain ⟨row, kept, hreads⟩ := exists_reads_weekdayText hclock
    obtain ⟨c, hc, hresolve⟩ := hreads n name lead withAt hname hlead
    obtain ⟨c', hc', hresolve'⟩ := hreads n name' lead' withAt' hname' hlead'
    refine ⟨interpret_congr hc hc' rfl ((hresolve now).trans (hresolve' now).symm), ?_⟩
    intro category i words hi
    rw [interpret_of_reads hc] at hi
    obtain ⟨-, hres, -⟩ := resolve_of_interpret hi
    have hlt : ∀ e ∈ weekdaySpellings, e.2 < 7 := by decide
    exact weekday_of_weekdayAt (hlt (name, n) hname) ((hresolve now).symm.trans hres)
  · intro day hday day' hday' withAt withAt'
    obtain ⟨row, c, hreads⟩ := exists_reads_tomorrowText hclock
    rw [interpret_of_reads (hreads day hday withAt), interpret_of_reads (hreads day' hday' withAt')]
  · intro t ht
    obtain ⟨c, hc⟩ := hclock t ht
    rw [interpret_of_reads (reads_atClock hc).1, interpret_of_reads (reads_atClock hc).2]
  · intro ds unit unit' m hdigits hunit hunit'
    exact interpret_amountText_inUnit hunit hunit' hdigits now

/-- The next Monday at three, in two spellings. -/
theorem monday_in_two_spellings :
    (∀ t ∈ some "3PM.".toList, IsClockText t) ∧
      interpret Row.all "next mon 3PM.".toList mondayAtTen =
        interpret Row.all "monday at 3PM.".toList mondayAtTen ∧
      ∃ i words, interpret Row.all "next mon 3PM.".toList mondayAtTen =
          .ok (.resolved .weekdayClock i words) ∧
        i.wall.date.weekday = 0 ∧ i.wall.date.day = 22 := by
  have hclock : ∀ t ∈ some "3PM.".toList, IsClockText t := by
    rintro t ⟨⟩
    decide +kernel
  obtain ⟨heq, hweekday⟩ := (interpret_eq_of_spelling mondayAtTen hclock).1 0 "mon" "monday" "next "
    "" false true (by decide) (by decide) (by decide) (by decide)
  have hnext : interpret Row.all "next mon 3PM.".toList mondayAtTen =
      .ok (.resolved .weekdayClock
        (floatingAt 2024 1 22 ⟨15, 0, by decide, by decide⟩ (by decide))
        "Monday, Jan 22 at 3:00 PM") := by
    decide +kernel
  exact ⟨hclock, heq, _, _, hnext, hweekday _ _ _ hnext, by decide⟩

end Almanac.Phrase
