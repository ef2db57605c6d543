import Almanac.Proofs.Calendar.Shown

/-!
# Times that are skipped

When clocks are put forward, the times in between are shown by no clock. All other times are read
in a zone as a moment at which a clock there shows them; a skipped time is read as a moment at which
a clock shows another one, as far from it as clocks are put forward.
-/

namespace Almanac.Calendar

variable {z : Zone} {c d : Change} {utc v w : Wall} {later : Bool}

namespace Zone

/-- Whether no clock in the zone ever shows a time. -/
def Skips (z : Zone) (w : Wall) : Prop :=
  ∀ utc later, ¬z.Shows utc w later

/-! ### Reading a time in a zone -/

/-- A time that no change skips is read as a moment at which a clock has the offset of the reading. -/
theorem fromUtc_of_not_skips (hz : z.IsRegular) (hw : ∀ c ∈ z.changes, ¬c.Skips w)
    (hutc : (utc.ticks : Int) = w.ticks - z.offset w later) :
    (z.fromUtc utc).1 = z.offset w later := by
  obtain ⟨come, ahead, hcut⟩ := exists_cut hz (turn_le_of_precedes later) w.ticks
  rw [offset_of_cut hcut] at hutc ⊢
  have hcut' : z.Cut Change.moment utc.ticks come ahead := by
    apply cut_of_neighbours hz moment_le_of_precedes hcut.changes_eq
    · intro c hc
      have hcome := hcut.due_le c (List.mem_of_getLast? hc)
      have hturn := (c.turn_mem later).1
      have hskips := hw c (hcut.mem_of_come (List.mem_of_getLast? hc))
      rw [offsetAfter_of_getLast? hc] at hutc
      rw [Change.turn_true] at hturn
      rw [Change.Skips] at hskips
      omega
    · intro d hd
      have hahead := hcut.lt_due d (List.mem_of_mem_head? hd)
      have hturn := (d.turn_mem later).2
      have hskips := hw d (hcut.mem_of_ahead (List.mem_of_mem_head? hd))
      rw [← before_of_head? hcut.changes_eq hd] at hutc
      rw [Change.turn_false] at hturn
      rw [Change.Skips] at hskips
      omega
  rw [fromUtc, hcut'.come_eq]

/-- A time that a change skips is read as a moment at which a clock has the offset of its other
    reading. -/
theorem fromUtc_of_skips (hz : z.IsRegular) (hc : c ∈ z.changes) (hw : c.Skips w)
    (hutc : (utc.ticks : Int) = w.ticks - z.offset w later) :
    (z.fromUtc utc).1 = z.offset w !later := by
  obtain ⟨htrue, hfalse⟩ := offset_of_turned hz hc hw.turn.1 hw.turn.2
  rw [Change.Skips] at hw
  cases later with
  | false =>
    -- read with the offset before the change, the time is a moment after it
    rw [hfalse] at hutc
    rw [Bool.not_false, htrue]
    refine offsetAfter_come_of_le hz moment_le_of_precedes hc (by omega) fun d hd => ?_
    have hfar := hd.moment
    rw [Change.size] at hfar
    omega
  | true =>
    rw [htrue] at hutc
    rw [Bool.not_true, hfalse]
    refine offsetAfter_come_of_lt hz moment_le_of_precedes hc (by omega) fun d hd => ?_
    have hfar := hd.moment
    rw [Change.size, Change.size] at hfar
    omega

/-- A clock shows what is read, unless a change skips the time. -/
theorem shows_of_not_skips (hz : z.IsRegular) (hw : ∀ c ∈ z.changes, ¬c.Skips w)
    (hutc : (utc.ticks : Int) = w.ticks - z.offset w later) :
    z.Shows utc w (z.fromUtc utc).2 := by
  have hoff := fromUtc_of_not_skips hz hw hutc
  exact ⟨by omega, rfl⟩

/-- No change skips a time that is shown. -/
theorem Shows.not_skips (hz : z.IsRegular) (h : z.Shows utc w later) (hc : c ∈ z.changes) :
    ¬c.Skips w := by
  intro hs
  have hoffset := h.offset_eq hz
  have hutc : (utc.ticks : Int) = w.ticks - z.offset w later := by
    rw [hoffset, h.1]
    omega
  have hback := fromUtc_of_skips hz hc hs hutc
  obtain ⟨htrue, hfalse⟩ := offset_of_turned hz hc hs.turn.1 hs.turn.2
  rw [Change.Skips] at hs
  rw [← hoffset] at hback
  cases later with
  | false =>
    rw [Bool.not_false] at hback
    omega
  | true =>
    rw [Bool.not_true] at hback
    omega

/-- A time that is read as some moment is shown by no clock exactly if a change skips it. -/
theorem skips_iff (hz : z.IsRegular) (hutc : (utc.ticks : Int) = w.ticks - z.offset w later) :
    z.Skips w ↔ ∃ c ∈ z.changes, c.Skips w := by
  constructor
  · intro h
    apply Classical.byContradiction
    intro hn
    exact h utc _ (shows_of_not_skips hz (fun c hc hw => hn ⟨c, hc, hw⟩) hutc)
  · rintro ⟨c, hc, hw⟩ t b hshows
    exact hshows.not_skips hz hc hw

/-- No time that a change skips follows on the same day after one that is shown in its later
    reading. -/
theorem Shows.not_skips_of_lt (hz : z.IsRegular) (h : z.Shows utc v true) (hdate : w.date = v.date)
    (hlt : v < w) (hc : c ∈ z.changes) : ¬c.Skips w := by
  intro hs
  obtain ⟨e, he, hr, -⟩ := h.repeats hz
  have hday : w.dayIndex = v.dayIndex := by rw [← w.index_date, hdate, v.index_date]
  have hv := v.ticks_eq
  have hw := w.ticks_eq
  have htime := w.time_lt
  rw [hday] at hw
  rw [Wall.lt_def] at hlt
  obtain ⟨hsle, hslt⟩ := hs.turn
  obtain ⟨hrle, hrlt⟩ := hr.turn
  rcases hz.eq_or_precedes hc he with rfl | hce | hec
  · rw [Change.Skips] at hs
    rw [Change.Repeats] at hr
    omega
  · have hfar := hce.turn_lt false true
    omega
  · have hfar := hec.turn_lt false true
    omega

end Zone

/-! ### Instants in a zone -/

namespace Instant

variable {i : Instant}

theorem inZone_of_shift (h : utc.shift (z.fromUtc utc).1 = .ok w) :
    (⟨utc, .fixed 0, false⟩ : Instant).inZone z = .ok ⟨w, .zoned z, (z.fromUtc utc).2⟩ := by
  have hframe : Frame.fixed 0 ≠ .zoned z := by
    intro hf
    cases hf
  have hutc : (⟨utc, .fixed 0, false⟩ : Instant).utcWall = .ok utc := by
    have hticks : Wall.ofTicks? ((utc.ticks : Int) - 0) = some utc :=
      Wall.ofTicks?_eq_some_iff.mpr (Int.sub_zero _)
    simp only [utcWall, utcTicks?, offset?, Option.map_some, hticks, Option.elim_some]
  exact inZone_eq_ok_iff.mpr (.inr ⟨hframe, utc, w, hutc, h, rfl⟩)

end Instant

/-- There is room around a time that a change skips for as much as clocks are put forward. -/
theorem Change.Skips.exists_shift (hz : z.IsRegular) (hc : c ∈ z.changes) (h : c.Skips w) {n : Int}
    (hn : n.natAbs ≤ c.size) : ∃ v, w.shift n = .ok v := by
  obtain ⟨hbefore, hafter⟩ := hz.natAbs_lt hc
  obtain ⟨hfirst, hlast⟩ := hz.moment_mem hc
  have hweek : 7 * day = week := rfl
  rw [Skips] at h
  rw [size] at hn
  have hrange : 0 ≤ w.ticks + n ∧ w.ticks + n < span := by omega
  refine ⟨⟨(w.ticks + n).toNat, by omega⟩, Wall.shift_eq_ok_iff.mpr ?_⟩
  exact Int.toNat_of_nonneg hrange.1

namespace Instant

variable {i : Instant}

/-- The moment of an instant in a zone, taken there again, is the instant on the wall clock exactly
    if the time is not skipped. A skipped time, in its earlier reading, leads to a later one. -/
theorem exists_inZone_of_utcWall (hz : z.IsRegular) (hf : i.frame = .zoned z)
    (h : i.utcWall = .ok utc) :
    ∃ shown, (⟨utc, .fixed 0, false⟩ : Instant).inZone z = .ok shown ∧
      (shown.wall = i.wall ↔ ¬z.Skips i.wall) ∧
      (z.Skips i.wall → i.later = false →
        ∃ c ∈ z.changes, c.Skips i.wall ∧
          (shown.wall.ticks : Int) = i.wall.ticks + (c.after - c.before)) := by
  rw [utcWall_eq_ok_iff hf] at h
  have hiff := Zone.skips_iff hz h
  by_cases hs : z.Skips i.wall
  · obtain ⟨c, hc, hw⟩ := hiff.mp hs
    have hback := Zone.fromUtc_of_skips hz hc hw h
    obtain ⟨htrue, hfalse⟩ := Zone.offset_of_turned hz hc hw.turn.1 hw.turn.2
    have hgap : z.offset i.wall (!i.later) - z.offset i.wall i.later =
        if i.later then c.before - c.after else c.after - c.before := by
      cases i.later with
      | false =>
        rw [Bool.not_false, htrue, hfalse]
        rfl
      | true =>
        rw [Bool.not_true, htrue, hfalse]
        rfl
    have hpos : c.before < c.after := by
      rw [Change.Skips] at hw
      omega
    obtain ⟨v, hv⟩ := hw.exists_shift hz hc
      (n := z.offset i.wall (!i.later) - z.offset i.wall i.later)
      (by rw [hgap, Change.size]; split <;> omega)
    rw [Wall.shift_eq_ok_iff, hgap] at hv
    have hshift : utc.shift (z.fromUtc utc).1 = .ok v := by
      rw [Wall.shift_eq_ok_iff]
      omega
    have hne : v ≠ i.wall := by
      rintro rfl
      split at hv <;> omega
    have hlater (hl : i.later = false) : (v.ticks : Int) = i.wall.ticks + (c.after - c.before) := by
      rwa [hl, if_neg Bool.false_ne_true] at hv
    exact ⟨_, inZone_of_shift hshift, iff_of_false hne (not_not_intro hs),
      fun _ hl => ⟨c, hc, hw, hlater hl⟩⟩
  · have hshows := Zone.shows_of_not_skips hz (fun c hc hw => hs (hiff.mpr ⟨c, hc, hw⟩)) h
    have hshift := Wall.shift_eq_ok_iff.mpr hshows.1
    exact ⟨_, inZone_of_shift hshift, iff_of_true rfl hs, fun h => absurd h hs⟩

end Instant

end Almanac.Calendar
