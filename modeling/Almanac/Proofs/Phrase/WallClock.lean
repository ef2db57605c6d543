import Almanac.Proofs.Calendar.Change
import Almanac.Proofs.Phrase.Interpretation
import Almanac.Proofs.Phrase.Window

/-!
# Only the wall clock counts

At two references at which clocks show the same, a phrase is interpreted in the same way, whatever the
frames of the references are and whichever of two readings is meant: the instants are shown alike,
each in the frame of its own reference, and are judged alike there.
-/

namespace Almanac.Phrase

open Calendar Record Text

/-! ### Computations that end alike -/

/-- Whether two computations end with instants at which clocks show the same, or with one fault. -/
inductive Alike : Except Fault Instant → Except Fault Instant → Prop
  | ok {i j : Instant} (h : i.wall = j.wall) : Alike (.ok i) (.ok j)
  | error (e : Fault) : Alike (.error e) (.error e)

variable {i j now now' : Instant} {m n : Except Fault Instant}
  {f g : Instant → Except Fault Instant}

theorem Alike.bind (h : Alike m n) (hfg : ∀ {i j}, i.wall = j.wall → Alike (f i) (g j)) :
    Alike (m >>= f) (n >>= g) := by
  cases h with
  | ok h => exact hfg h
  | error e => exact .error e

theorem Alike.map {p q : Instant → Instant} (h : Alike m n)
    (hpq : ∀ {i j}, i.wall = j.wall → (p i).wall = (q j).wall) : Alike (m.map p) (n.map q) := by
  cases h with
  | ok h => exact .ok (hpq h)
  | error e => exact .error e

theorem wall_atClock_eq (h : i.wall = j.wall) (k : Clock) : (i.atClock k).wall = (j.atClock k).wall := by
  rw [Instant.wall_atClock, Instant.wall_atClock, h]

theorem Alike.atClock (h : Alike m n) (k : Clock) :
    Alike
      (do
        let next ← m
        .ok (next.atClock k))
      (do
        let next ← n
        .ok (next.atClock k)) :=
  h.bind fun h => .ok (wall_atClock_eq h k)

/-- What is found without the reference is the same for both. -/
theorem Alike.of_bind {α : Type} {x : Except Fault α} {f g : α → Except Fault Instant}
    (h : ∀ a, Alike (f a) (g a)) : Alike (x >>= f) (x >>= g) := by
  cases x with
  | ok a => exact h a
  | error e => exact .error e

/-! ### Moving on -/

theorem alike_onCalendar {x : Except CalendarError Wall} {p q : Wall → Instant}
    (h : ∀ w, (p w).wall = (q w).wall) : Alike (onCalendar (x.map p)) (onCalendar (x.map q)) := by
  cases x with
  | ok w => exact .ok (h w)
  | error e => exact .error _

theorem alike_moved (h : i.wall = j.wall) (d : Int) : Alike (moved i d) (moved j d) := by
  rw [moved, moved, Instant.shift, Instant.shift, h]
  exact alike_onCalendar fun _ => rfl

theorem alike_nextClock (h : now.wall = now'.wall) (k : Clock) :
    Alike (nextClock now k) (nextClock now' k) := by
  rw [nextClock, nextClock, rollForward_eq (Instant.frame_atClock ..),
    rollForward_eq (Instant.frame_atClock ..), wall_atClock_eq h, h]
  split
  · exact .ok (wall_atClock_eq h k)
  · exact alike_moved (wall_atClock_eq h k) day

theorem alike_nextWeekday (h : now.wall = now'.wall) (weekday : Int) :
    Alike (nextWeekday now weekday) (nextWeekday now' weekday) := by
  rw [nextWeekday, nextWeekday, h]
  exact (alike_moved h _).map fun h => wall_atClock_eq h dayTime

theorem alike_firstOfNextMonth (h : now.wall = now'.wall) :
    Alike (onCalendar now.firstOfNextMonth) (onCalendar now'.firstOfNextMonth) := by
  rw [Instant.firstOfNextMonth, Instant.firstOfNextMonth, h]
  exact alike_onCalendar fun _ => rfl

/-! ### Rules -/

theorem alike_relativeOffsetOf (r : Reading) (h : now.wall = now'.wall) :
    Alike (Rule.relativeOffsetOf r now) (Rule.relativeOffsetOf r now') := by
  apply Alike.of_bind
  intro unit
  apply Alike.of_bind
  intro length
  apply Alike.of_bind
  intro digits
  dsimp only
  split
  · exact .error _
  · split
    · exact .error _
    · rw [Instant.shift, Instant.shift, h]
      cases now'.wall.shift _ with
      | ok w => exact .ok rfl
      | error e => exact .error _

theorem alike_weekdayOfReading (r : Reading) (h : now.wall = now'.wall) :
    Alike (Rule.weekdayOfReading r now) (Rule.weekdayOfReading r now') := by
  apply Alike.of_bind
  intro name
  apply Alike.of_bind
  intro weekday
  exact alike_nextWeekday h weekday

/-- A date does not depend on the reference. -/
theorem alike_explicitDateOf (r : Reading) (now now' : Instant) :
    Alike (Rule.explicitDateOf r now) (Rule.explicitDateOf r now') := by
  apply Alike.of_bind
  intro clock
  apply Alike.of_bind
  intro year
  apply Alike.of_bind
  intro month
  apply Alike.of_bind
  intro day
  cases Date.make year month day with
  | ok d => exact .ok rfl
  | error e => exact .error _

theorem alike_resolve (r : Reading) (h : now.wall = now'.wall) :
    Alike (r.resolve now) (r.resolve now') := by
  rw [Reading.resolve, Reading.resolve]
  cases r.row.rule with
  | relativeOffset => exact alike_relativeOffsetOf r h
  | clockTime => exact .of_bind fun k => alike_nextClock h k
  | tomorrow => exact (alike_moved h day).atClock dayTime
  | tomorrowClock => exact (alike_moved h day).bind fun h => .of_bind fun k => .ok (wall_atClock_eq h k)
  | weekday => exact alike_weekdayOfReading r h
  | weekdayClock =>
    exact (alike_weekdayOfReading r h).bind fun h => .of_bind fun k => .ok (wall_atClock_eq h k)
  | explicitDate => exact alike_explicitDateOf r now now'
  | now => exact .ok h
  | evening => exact alike_nextClock h eveningTime
  | morning => exact alike_nextClock h morningTime
  | afternoon => exact alike_nextClock h afternoonTime
  | nextWeek => exact (alike_moved h (7 * day : Nat)).atClock dayTime
  | nextMonth => exact (alike_firstOfNextMonth h).atClock dayTime

/-! ### Interpreting and judging -/

/-- Whether two interpretations, each with its own reference, end alike: with the same fault, with the
    same failure, or with the same category and words, and instants in the frames of the references
    at which clocks show the same and which are judged alike. -/
inductive SameOnWall (now now' : Instant) :
    Except Fault Interpretation → Except Fault Interpretation → Prop
  | broken (e : Fault) : SameOnWall now now' (.error e) (.error e)
  | failed (why : Failure) : SameOnWall now now' (.ok (.failed why)) (.ok (.failed why))
  | resolved (category : Category) (words : String) {i j : Instant} (hw : i.wall = j.wall)
      (hi : i.frame = now.frame) (hj : j.frame = now'.frame) (hjudge : judge i now = judge j now') :
      SameOnWall now now' (.ok (.resolved category i words)) (.ok (.resolved category j words))

theorem judge_eq_of_wall_eq (h : now.wall = now'.wall) (hw : i.wall = j.wall)
    (hi : i.frame = now.frame) (hj : j.frame = now'.frame) : judge i now = judge j now' := by
  rw [judge_eq_judgeAt hi, judge_eq_judgeAt hj, hw, h]

theorem sameOnWall_of_reads {row : Row} {t : List Char} {c : Captures}
    (hc : row.shape.Reads (normalize t) c) (h : now.wall = now'.wall) :
    SameOnWall now now' (Reading.interpret ⟨row, c⟩ now) (Reading.interpret ⟨row, c⟩ now') := by
  have halike := alike_resolve ⟨row, c⟩ h
  cases hm : Reading.resolve ⟨row, c⟩ now with
  | ok i =>
    rw [hm] at halike
    cases hn : Reading.resolve ⟨row, c⟩ now' with
    | ok j =>
      rw [hn] at halike
      obtain ⟨hw⟩ := halike
      obtain ⟨hi, -⟩ := later_of_resolve hc hm
      obtain ⟨hj, -⟩ := later_of_resolve hc hn
      rw [interpret_eq_of_resolve hm hi, interpret_eq_of_resolve hn hj, hw, h]
      exact .resolved _ _ hw hi hj (judge_eq_of_wall_eq h hw hi hj)
    | error e =>
      rw [hn] at halike
      cases halike
  | error e =>
    rw [hm] at halike
    cases hn : Reading.resolve ⟨row, c⟩ now' with
    | ok j =>
      rw [hn] at halike
      cases halike
    | error e' =>
      rw [hn] at halike
      cases halike
      rw [Reading.interpret, Reading.interpret, hm, hn]
      cases e with
      | refused why => exact .failed (.refused why)
      | _ => exact .broken _

/-- The reports of two interpretations that end alike differ in nothing but the frame of the
    instant. -/
theorem SameOnWall.report_eq {a b : Interpretation} (h : SameOnWall now now' (.ok a) (.ok b)) :
    report b = { report a with instant := (report b).instant } := by
  cases h with
  | failed why => rfl
  | resolved category words hw hi hj hjudge => rfl

/-- Only the wall clock counts: at references at which clocks show the same, in any frames and
    readings, a phrase has the same fault, the same failure, or the same meaning, and the instants
    it names are judged alike. The reports differ in the frame of the instant alone. -/
theorem interpret_of_wall_eq (text : List Char) (h : now.wall = now'.wall) :
    SameOnWall now now' (interpret Row.all text now) (interpret Row.all text now') ∧
      ∀ a b, interpret Row.all text now = .ok a → interpret Row.all text now' = .ok b →
        report b = { report a with instant := (report b).instant } := by
  have hsame : SameOnWall now now' (interpret Row.all text now) (interpret Row.all text now') := by
    rw [interpret, interpret]
    split
    · exact .failed .empty
    · split
      · exact .failed .unmatched
      · next r hr => exact sameOnWall_of_reads (Reading.find?_all_eq_some_iff.mp hr) h
  refine ⟨hsame, ?_⟩
  intro a b ha hb
  rw [ha, hb] at hsame
  exact hsame.report_eq

/-- Half past two in the night in which clocks in Europe are put back from three to two. -/
def nightOfChange (frame : Frame) (later : Bool) : Instant :=
  ⟨Wall.on (.ofNumbers 2023 10 29 (by decide)) (2 * hour + 30 * minute) (by decide), frame, later⟩

/-- That time in Paris, as clocks show it there for the second time. -/
def againInParis : Instant :=
  nightOfChange (.zoned Zone.paris) true

/-- A quarter of an hour leads to the same time in Paris, after clocks were put back there, as on a
    clock without offset. -/
theorem interpret_againInParis :
    againInParis.wall = (nightOfChange .floating false).wall ∧
      ∃ a b, interpret Row.all "in 15 minutes".toList againInParis = .ok a ∧
        interpret Row.all "in 15 minutes".toList (nightOfChange .floating false) = .ok b ∧
        (report a).success = true ∧
        SameOnWall againInParis (nightOfChange .floating false) (.ok a) (.ok b) ∧
        report b = { report a with instant := (report b).instant } := by
  have hwall : againInParis.wall = (nightOfChange .floating false).wall := rfl
  obtain ⟨hsame, hreport⟩ := interpret_of_wall_eq "in 15 minutes".toList hwall
  have hb : interpret Row.all "in 15 minutes".toList (nightOfChange .floating false) =
      .ok (.resolved .relativeOffset
        ⟨Wall.on (.ofNumbers 2023 10 29 (by decide)) (2 * hour + 45 * minute) (by decide),
          .floating, false⟩ "In 15 minutes (2:45 AM)") := by
    decide +kernel
  rw [hb] at hsame
  obtain ⟨a, ha⟩ : ∃ a, interpret Row.all "in 15 minutes".toList againInParis = .ok a := by
    cases hm : interpret Row.all "in 15 minutes".toList againInParis with
    | ok a => exact ⟨a, rfl⟩
    | error e =>
      rw [hm] at hsame
      cases hsame
  rw [ha] at hsame
  refine ⟨hwall, a, _, ha, hb, ?_, hsame, hreport _ _ ha hb⟩
  cases hsame
  rfl

end Almanac.Phrase
