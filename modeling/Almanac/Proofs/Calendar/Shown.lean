import Almanac.Calendar.Instant
import Almanac.Proofs.Calendar.Change
import Almanac.Proofs.Calendar.Moving

/-!
# What clocks show

What a clock in a regular zone shows at a moment in UTC is read back as that moment, in the reading
that it has. Of two times of which the second is read after the first, the second is the later one
in UTC as well, save in the times that are shown twice when clocks are put back.
-/

namespace Almanac.Calendar

variable {z : Zone} {c d : Change} {utc v w : Wall} {come ahead : List Change} {later a b : Bool}

namespace Zone

/-! ### From UTC to the wall clock -/

/-- Whether at a moment in UTC a clock in the zone shows a time, in its earlier or later reading. -/
def Shows (z : Zone) (utc w : Wall) (later : Bool) : Prop :=
  (w.ticks : Int) = utc.ticks + (z.fromUtc utc).1 ∧ later = (z.fromUtc utc).2

theorem Shows.of_cut (h : z.Shows utc w later) (hcut : z.Cut Change.moment utc.ticks come ahead) :
    (w.ticks : Int) = utc.ticks + z.offsetAfter come ∧
      (later = true ↔
        ∃ c ∈ come.getLast?, (utc.ticks : Int) < c.moment + (c.before - c.after)) := by
  obtain ⟨hw, rfl⟩ := h
  rw [fromUtc, hcut.come_eq] at hw ⊢
  refine ⟨hw, ?_⟩
  simp only [Option.any_eq_true, decide_eq_true_eq, Option.mem_def]

/-- The changes that have come at a moment are those that have come, on the wall clock, at the time
    that is shown. -/
theorem Shows.cut (hz : z.IsRegular) (h : z.Shows utc w later)
    (hcut : z.Cut Change.moment utc.ticks come ahead) :
    z.Cut (Change.turn later) w.ticks come ahead := by
  obtain ⟨hw, hlater⟩ := h.of_cut hcut
  apply cut_of_neighbours hz (turn_le_of_precedes later) hcut.changes_eq
  · intro c hc
    have hcome := hcut.due_le c (List.mem_of_getLast? hc)
    rw [offsetAfter_of_getLast? hc] at hw
    cases later with
    | true =>
      rw [Change.turn_true]
      omega
    | false =>
      have hnot : ¬(utc.ticks : Int) < c.moment + (c.before - c.after) :=
        fun hlt => Bool.false_ne_true (hlater.mpr ⟨c, hc, hlt⟩)
      rw [Change.turn_false]
      omega
  · intro d hd
    have hd' := List.mem_of_mem_head? hd
    have hahead := hcut.lt_due d hd'
    rw [← before_of_head? hcut.changes_eq hd] at hw
    cases later with
    | false =>
      rw [Change.turn_false]
      omega
    | true =>
      -- in the repeated times after a change, the next one is far away
      obtain ⟨c, hc, hlt⟩ := hlater.mp rfl
      have hfar := (precedes_of_mem hz hcut.changes_eq (List.mem_of_getLast? hc) hd').moment
      rw [Change.size, Change.size] at hfar
      rw [Change.turn_true]
      omega

/-- What a clock shows has the offset with which it is shown. -/
theorem Shows.offset_eq (hz : z.IsRegular) (h : z.Shows utc w later) :
    z.offset w later = (z.fromUtc utc).1 := by
  obtain ⟨come, ahead, hcut⟩ := exists_cut hz moment_le_of_precedes utc.ticks
  rw [offset_of_cut (h.cut hz hcut), fromUtc, hcut.come_eq]

/-- A time that is shown in its later reading is one that the last change repeats. -/
theorem Shows.repeats (hz : z.IsRegular) (h : z.Shows utc w true) :
    ∃ c ∈ z.changes, c.Repeats w ∧ (w.ticks : Int) = utc.ticks + c.after := by
  obtain ⟨come, ahead, hcut⟩ := exists_cut hz moment_le_of_precedes utc.ticks
  obtain ⟨hw, hlater⟩ := h.of_cut hcut
  obtain ⟨c, hc, hlt⟩ := hlater.mp rfl
  have hmem := List.mem_of_getLast? hc
  have hcome := hcut.due_le c hmem
  rw [offsetAfter_of_getLast? hc] at hw
  exact ⟨c, hcut.mem_of_come hmem, ⟨by omega, by omega⟩, hw⟩

/-! ### The order of times -/

/-- Whether all times from one to another are shown twice. -/
def RepeatsThrough (z : Zone) (v w : Wall) : Prop :=
  ∀ x, v ≤ x → x ≤ w → z.offset x true < z.offset x false

/-- A time is shown twice exactly if some change repeats it. -/
theorem repeats_iff (hz : z.IsRegular) (w : Wall) :
    z.offset w true < z.offset w false ↔ ∃ c ∈ z.changes, c.Repeats w := by
  rcases offset_cases hz w with ⟨c, hc, hs, ht, hf⟩ | ⟨c, hc, hr, ht, hf⟩ | ⟨hnone, heq⟩
  · have hlt : z.offset w false < z.offset w true := by
      rw [Change.Skips] at hs
      omega
    refine iff_of_false (Int.lt_asymm hlt) ?_
    rintro ⟨d, hd, hr⟩
    obtain ⟨ht', hf'⟩ := offset_of_turned hz hd hr.turn.1 hr.turn.2
    rw [Change.Repeats] at hr
    omega
  · refine iff_of_true ?_ ⟨c, hc, hr⟩
    rw [Change.Repeats] at hr
    omega
  · refine iff_of_false (by omega) ?_
    rintro ⟨d, hd, hr⟩
    exact (hnone d hd).2 hr

/-- What is read past a change that is still ahead at a moment is later than that. -/
theorem lt_of_turn_le_of_ahead (hz : z.IsRegular) (hv : z.Shows utc v a) (hab : b = true → a = true)
    (hcut : z.Cut Change.moment utc.ticks come ahead) (hd : d ∈ ahead) (hdw : d.turn b ≤ w.ticks) :
    (utc.ticks : Int) < w.ticks - z.offset w b := by
  obtain ⟨-, hlater⟩ := hv.of_cut hcut
  obtain ⟨come', ahead', hcut'⟩ := exists_cut hz (turn_le_of_precedes b) w.ticks
  -- the last change that has come at the other time is still ahead at the moment
  obtain ⟨e, he, hde⟩ :=
    exists_getLast? hz hcut'.changes_eq (hcut'.mem_come (hcut.mem_of_ahead hd) hdw)
  have hmoment : d.moment ≤ e.moment := by
    rcases hde with rfl | h
    · exact Int.le_refl _
    · exact Int.le_of_lt h.moment_lt
  have hahead := hcut.lt_due d hd
  have hew := hcut'.due_le e (List.mem_of_getLast? he)
  rw [offset_of_cut hcut', offsetAfter_of_getLast? he]
  cases b with
  | false =>
    rw [Change.turn_false] at hew
    omega
  | true =>
    obtain ⟨c, hc, hlt⟩ := hlater.mp (hab rfl)
    have hcd := precedes_of_mem hz hcut.changes_eq (List.mem_of_getLast? hc) hd
    have hce : c.Precedes e := by
      rcases hde with rfl | h
      · exact hcd
      · exact hcd.trans h
    have hfar := hce.moment
    rw [Change.size, Change.size] at hfar
    rw [Change.turn_true] at hew
    omega

/-- What is read past all changes that have come at a moment is later than that. -/
theorem lt_of_turn_le (hz : z.IsRegular) (hv : z.Shows utc v a) (hvw : v < w)
    (hab : b = true → a = true) (hcut : z.Cut Change.moment utc.ticks come ahead)
    (hcome : ∀ c ∈ come, c.turn b ≤ w.ticks) : (utc.ticks : Int) < w.ticks - z.offset w b := by
  by_cases hahead : ∃ d ∈ ahead, d.turn b ≤ w.ticks
  · obtain ⟨d, hd, hdw⟩ := hahead
    exact lt_of_turn_le_of_ahead hz hv hab hcut hd hdw
  · -- nothing changes in between
    have hcut' : z.Cut (Change.turn b) w.ticks come ahead :=
      ⟨hcut.changes_eq, hcome, fun d hd => Int.not_le.mp fun h => hahead ⟨d, hd, h⟩⟩
    obtain ⟨hutc, -⟩ := hv.of_cut hcut
    rw [Wall.lt_def] at hvw
    rw [offset_of_cut hcut']
    omega

/-- The second of two times that one change moves, in its earlier reading, is not after the first in
    its later one. -/
theorem le_of_turned (hz : z.IsRegular) (hc : c ∈ z.changes) (hv : c.Repeats v) (hw : c.Repeats w)
    (hutc : (v.ticks : Int) = utc.ticks + c.after) :
    (w.ticks : Int) - z.offset w false ≤ utc.ticks := by
  rw [(offset_of_turned hz hc hw.turn.1 hw.turn.2).2]
  rw [Change.Repeats] at hv hw
  omega

/-- Between two times that one change repeats, all times are shown twice. -/
theorem repeatsThrough_of_repeats (hz : z.IsRegular) (hc : c ∈ z.changes) (hv : c.Repeats v)
    (hw : c.Repeats w) : z.RepeatsThrough v w := by
  intro x hvx hxw
  rw [Wall.le_def] at hvx hxw
  rw [repeats_iff hz]
  rw [Change.Repeats] at hv hw
  exact ⟨c, hc, by omega, by omega⟩

/-- Where the times that a change repeats end, no time is shown twice. -/
theorem not_repeats_of_turn_eq (hz : z.IsRegular) (hc : c ∈ z.changes)
    (hw : (w.ticks : Int) = c.turn false) : ¬z.offset w true < z.offset w false := by
  rw [repeats_iff hz]
  rintro ⟨d, hd, hr⟩
  obtain ⟨hle, hlt⟩ := hr.turn
  rcases hz.eq_or_precedes hc hd with rfl | hcd | hdc
  · omega
  · have hfar := hcd.turn_lt false true
    omega
  · have hfar := hdc.turn_lt false false
    omega

/-- A time that is read after one that a clock shows is later in UTC as well, unless the time shown
    is the later one of two readings, the earlier reading is taken for the other time, and all times
    from the one to the other are shown twice. -/
theorem lt_iff_of_shows (hz : z.IsRegular) (hv : z.Shows utc v a) (hvw : v < w)
    (hab : b = true → a = true) :
    (utc.ticks : Int) < w.ticks - z.offset w b ↔
      ¬(a = true ∧ b = false ∧ z.RepeatsThrough v w) := by
  obtain ⟨come, ahead, hcut⟩ := exists_cut hz moment_le_of_precedes utc.ticks
  have hvcut := hv.cut hz hcut
  by_cases hcome : ∃ c ∈ come, w.ticks < c.turn b
  · obtain ⟨c, hc, hwc⟩ := hcome
    have hcv := hvcut.due_le c hc
    rw [Wall.lt_def] at hvw
    obtain ⟨rfl, rfl⟩ : a = true ∧ b = false := by
      cases a with
      | false =>
        cases b with
        | false => omega
        | true => exact absurd (hab rfl) Bool.false_ne_true
      | true =>
        cases b with
        | false => exact ⟨rfl, rfl⟩
        | true => omega
    -- the change that is not passed is the one that repeats the time shown
    obtain ⟨e, he, hre, hutc⟩ := hv.repeats hz
    obtain ⟨hle, hlt⟩ := hre.turn
    obtain rfl : c = e := by
      rcases hz.eq_or_precedes (hcut.mem_of_come hc) he with rfl | hce | hec
      · rfl
      · have hfar := hce.turn_lt false true
        omega
      · have hfar := hec.turn_lt false true
        omega
    have hrw : c.Repeats w := by
      rw [Change.turn_false] at hwc
      rw [Change.Repeats] at hre ⊢
      omega
    refine iff_of_false (Int.not_lt.mpr (le_of_turned hz he hre hrw hutc)) ?_
    exact not_not_intro ⟨rfl, rfl, repeatsThrough_of_repeats hz he hre hrw⟩
  · have hcome' : ∀ c ∈ come, c.turn b ≤ w.ticks :=
      fun c hc => Int.not_lt.mp fun h => hcome ⟨c, hc, h⟩
    refine iff_of_true (lt_of_turn_le hz hv hvw hab hcut hcome') ?_
    rintro ⟨rfl, rfl, hr⟩
    obtain ⟨c, hc, hrv, hutc⟩ := hv.repeats hz
    have hmoment : c.moment ≤ utc.ticks := by
      have hle := hrv.1
      omega
    have hcw := hcome' c (hcut.mem_come hc hmoment)
    have hvc := hrv.turn.2
    obtain ⟨x, hx⟩ : ∃ x : Wall, (x.ticks : Int) = c.turn false :=
      ⟨⟨(c.turn false).toNat, by have := w.inRange; omega⟩, by simp only; omega⟩
    exact not_repeats_of_turn_eq hz hc hx
      (hr x (Wall.le_def.mpr (by omega)) (Wall.le_def.mpr (by omega)))

end Zone

/-! ### Instants that are shown -/

namespace Instant

/-- Whether an instant, if it is in a zone, is what a clock there shows at some moment. -/
def IsShown (i : Instant) : Prop :=
  ∀ z, i.frame = .zoned z → ∃ utc, z.Shows utc i.wall i.later

variable {i j : Instant}

theorem utcWall_eq_ok_iff (hf : i.frame = .zoned z) :
    i.utcWall = .ok utc ↔ (utc.ticks : Int) = i.wall.ticks - z.offset i.wall i.later := by
  have hticks : i.utcTicks? = some (i.wall.ticks - z.offset i.wall i.later) := by
    rw [utcTicks?, offset?, hf]
    rfl
  rw [utcWall_eq_ok_iff_of_utcTicks hticks, eq_comm]

/-- An instant is taken into a zone by way of UTC, unless it is there already. -/
theorem inZone_eq_ok_iff :
    i.inZone z = .ok j ↔ i.frame = .zoned z ∧ i = j ∨
      i.frame ≠ .zoned z ∧ ∃ utc w, i.utcWall = .ok utc ∧ utc.shift (z.fromUtc utc).1 = .ok w ∧
        j = ⟨w, .zoned z, (z.fromUtc utc).2⟩ := by
  rw [inZone]
  by_cases hf : i.frame = .zoned z
  · simp [hf]
  · cases hu : i.utcWall with
    | error e => simp [hf, bind, Except.bind]
    | ok utc =>
      cases hw : utc.shift (z.fromUtc utc).1 with
      | error e => simp [hf, hw, bind, Except.bind]
      | ok w => simp [hf, hw, bind, Except.bind, eq_comm]

theorem frame_of_inZone (h : i.inZone z = .ok j) : j.frame = .zoned z := by
  obtain ⟨hf, rfl⟩ | ⟨-, utc, w, -, -, rfl⟩ := inZone_eq_ok_iff.mp h
  · exact hf
  · rfl

/-- An instant taken into a zone is what a clock there shows at its moment in UTC. -/
theorem shows_of_inZone (hz : z.IsRegular) (hi : i.IsShown) (h : i.inZone z = .ok j) :
    j.frame = .zoned z ∧ ∃ utc, i.utcWall = .ok utc ∧ z.Shows utc j.wall j.later := by
  obtain ⟨hf, rfl⟩ | ⟨-, utc, w, hutc, hw, rfl⟩ := inZone_eq_ok_iff.mp h
  · obtain ⟨utc, hutc⟩ := hi z hf
    refine ⟨hf, utc, (utcWall_eq_ok_iff hf).mpr ?_, hutc⟩
    rw [hutc.offset_eq hz, hutc.1]
    omega
  · exact ⟨rfl, utc, hutc, Wall.shift_eq_ok_iff.mp hw, rfl⟩

/-- What comes after a time that a clock shows is in the calendar in UTC as well, if a day is left after
    its own. -/
theorem exists_utcWall_of_lt (hz : z.IsRegular) (hv : z.Shows utc v a) (hf : i.frame = .zoned z)
    (hlt : v < i.wall) (hl : i.later = true → a = true) (hroom : i.wall.dayIndex + 2 ≤ dayCount) :
    ∃ w, i.utcWall = .ok w := by
  have hoffset := Zone.natAbs_offset_lt hz i.wall i.later
  have hlast : i.wall.ticks + day < span := by
    have hticks := i.wall.ticks_eq
    have htime := i.wall.time_lt
    calc i.wall.ticks + day < day * (i.wall.dayIndex + 2) := by
          rw [Nat.mul_add]
          omega
      _ ≤ span := Nat.mul_le_mul_left day hroom
  have hfirst : (0 : Int) ≤ i.wall.ticks - z.offset i.wall i.later := by
    by_cases hback : a = true ∧ i.later = false ∧ z.RepeatsThrough v i.wall
    · -- times that are shown twice are days after the beginning of the calendar
      have hrepeats := hback.2.2 i.wall (Nat.le_of_lt hlt) (Nat.le_refl _)
      obtain ⟨c, hc, hr⟩ := (Zone.repeats_iff hz i.wall).mp hrepeats
      have hafter := (hz.natAbs_lt hc).2
      have hmoment := (hz.moment_mem hc).1
      have hweek : 7 * day = week := rfl
      have hw := hr.1
      omega
    · have hutc := (Zone.lt_iff_of_shows hz hv hlt hl).mpr hback
      omega
  refine ⟨⟨(i.wall.ticks - z.offset i.wall i.later).toNat, by omega⟩, ?_⟩
  rw [utcWall_eq_ok_iff hf]
  exact Int.toNat_of_nonneg hfirst

end Instant

end Almanac.Calendar
