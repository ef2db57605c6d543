import Almanac.Calendar.Zone
import Almanac.Proofs.Calendar.Moving
import Mathlib.Data.List.Chain
import Mathlib.Data.List.Pairwise
import Mathlib.Data.List.TakeWhile

/-!
# Changes of clocks

In a regular zone the changes of clocks follow one another at some distance. The times on the wall
clock that one change skips or shows twice then lie well apart from those of the next one, and a cut
of the changes into those that have come and those that have not is found by its neighbours alone.
-/

namespace Almanac.Calendar

variable {z : Zone} {c d : Change} {w : Wall} {come ahead : List Change} {later : Bool}

/-! ### Distances -/

namespace Change

/-- How far clocks are moved. -/
def size (c : Change) : Nat :=
  (c.after - c.before).natAbs

/-- Whether a change comes more than a day, and more than clocks are moved at both, before
    another. -/
def IsFarFrom (c d : Change) : Prop :=
  c.moment + c.size + day + d.size < d.moment

instance (c d : Change) : Decidable (c.IsFarFrom d) := inferInstanceAs (Decidable (_ < _))

/-- Whether a change comes before another, in UTC and by more than a day on the wall clock. -/
structure Precedes (c d : Change) : Prop where
  moment : c.moment + c.size + d.size < d.moment
  turn   : c.turn false + day < d.turn true

theorem turn_true (c : Change) : c.turn true = c.moment + min c.before c.after := rfl

theorem turn_false (c : Change) : c.turn false = c.moment + max c.before c.after := rfl

theorem turn_mem (c : Change) (later : Bool) :
    c.turn true ≤ c.turn later ∧ c.turn later ≤ c.turn false := by
  rw [turn_true, turn_false]
  cases later with
  | false =>
    rw [turn_false]
    omega
  | true =>
    rw [turn_true]
    omega

theorem IsFarFrom.precedes (h : c.IsFarFrom d) (hnext : d.before = c.after) : c.Precedes d := by
  rw [IsFarFrom, size, size] at h
  refine ⟨?_, ?_⟩
  · rw [size, size]
    omega
  · rw [turn_true, turn_false]
    omega

theorem Precedes.trans {e : Change} (h : c.Precedes d) (h' : d.Precedes e) : c.Precedes e := by
  have hd := (d.turn_mem false).1
  have h₁ := h.moment
  have h₂ := h'.moment
  have h₃ := h.turn
  have h₄ := h'.turn
  exact ⟨by omega, by omega⟩

theorem Precedes.moment_lt (h : c.Precedes d) : c.moment < d.moment := by
  have hm := h.moment
  omega

theorem Precedes.turn_lt (h : c.Precedes d) (a b : Bool) : c.turn a + day < d.turn b := by
  have ht := h.turn
  have hc := (c.turn_mem a).2
  have hd := (d.turn_mem b).1
  omega

end Change

/-! ### Regular zones -/

namespace Zone

/-- Whether offsets are less than a day, and changes lie well inside the calendar and are far from
    each other. The zones of the IANA database are all regular: no two changes of one are closer than
    four days. -/
structure IsRegular (z : Zone) : Prop where
  first_lt  : z.first.natAbs < day
  offset_lt : ∀ t ∈ z.turns, t.offset.natAbs < day
  inside    : ∀ t ∈ z.turns, week ≤ t.moment ∧ t.moment + week ≤ span
  spaced    : z.changes.IsChain Change.IsFarFrom

instance (z : Zone) : Decidable z.IsRegular :=
  decidable_of_iff
    ((z.first.natAbs < day ∧ ∀ t ∈ z.turns, t.offset.natAbs < day) ∧
      (∀ t ∈ z.turns, week ≤ t.moment ∧ t.moment + week ≤ span) ∧
        z.changes.IsChain Change.IsFarFrom)
    ⟨fun ⟨⟨h₁, h₂⟩, h₃, h₄⟩ => ⟨h₁, h₂, h₃, h₄⟩, fun ⟨h₁, h₂, h₃, h₄⟩ => ⟨⟨h₁, h₂⟩, h₃, h₄⟩⟩

/-- A change starts from the offset that the changes before it have left. -/
theorem before_of_changesFrom {first : Int} {turns : List Turn}
    (h : changesFrom first turns = come ++ d :: ahead) :
    d.before = (come.getLast?.map Change.after).getD first := by
  induction turns generalizing first come with
  | nil => simp [changesFrom] at h
  | cons t turns ih =>
    rw [changesFrom] at h
    cases come with
    | nil =>
      rw [List.nil_append, List.cons.injEq] at h
      rw [← h.1]
      rfl
    | cons c come =>
      rw [List.cons_append, List.cons.injEq] at h
      obtain ⟨rfl, h⟩ := h
      rw [ih h, List.getLast?_cons]
      cases come.getLast? <;> rfl

theorem before_of_head? (h : z.changes = come ++ ahead) (hd : d ∈ ahead.head?) :
    d.before = z.offsetAfter come := by
  obtain ⟨rest, rfl⟩ := List.head?_eq_some_iff.mp hd
  exact before_of_changesFrom h

theorem offsetAfter_of_getLast? (hc : c ∈ come.getLast?) : z.offsetAfter come = c.after := by
  rw [offsetAfter, hc]
  rfl

theorem isChain_precedes {first : Int} {turns : List Turn}
    (h : (changesFrom first turns).IsChain Change.IsFarFrom) :
    (changesFrom first turns).IsChain Change.Precedes := by
  induction turns generalizing first with
  | nil => exact .nil
  | cons t turns ih =>
    cases turns with
    | nil => exact .singleton _
    | cons t' turns =>
      obtain ⟨hfar, h⟩ := List.isChain_cons_cons.mp h
      exact .cons_cons (hfar.precedes rfl) (ih h)

/-- The offsets of a change are those of the zone. -/
theorem offsets_of_mem {first : Int} {turns : List Turn} (hc : c ∈ changesFrom first turns) :
    (∃ t ∈ turns, c.moment = t.moment ∧ c.after = t.offset) ∧
      (c.before = first ∨ ∃ t ∈ turns, c.before = t.offset) := by
  induction turns generalizing first with
  | nil => cases hc
  | cons t turns ih =>
    rcases List.mem_cons.mp hc with rfl | hc
    · exact ⟨⟨t, List.mem_cons_self .., rfl, rfl⟩, .inl rfl⟩
    · obtain ⟨⟨u, hu, hmoment, hafter⟩, hbefore⟩ := ih hc
      refine ⟨⟨u, List.mem_cons_of_mem t hu, hmoment, hafter⟩, .inr ?_⟩
      rcases hbefore with hb | ⟨v, hv, hb⟩
      · exact ⟨t, List.mem_cons_self .., hb⟩
      · exact ⟨v, List.mem_cons_of_mem t hv, hb⟩

theorem IsRegular.natAbs_lt (hz : z.IsRegular) (hc : c ∈ z.changes) :
    c.before.natAbs < day ∧ c.after.natAbs < day := by
  obtain ⟨⟨t, ht, -, hafter⟩, hbefore⟩ := offsets_of_mem hc
  refine ⟨?_, hafter ▸ hz.offset_lt t ht⟩
  rcases hbefore with hb | ⟨u, hu, hb⟩
  · exact hb ▸ hz.first_lt
  · exact hb ▸ hz.offset_lt u hu

theorem IsRegular.moment_mem (hz : z.IsRegular) (hc : c ∈ z.changes) :
    week ≤ c.moment ∧ c.moment + week ≤ span := by
  obtain ⟨⟨t, ht, hmoment, -⟩, -⟩ := offsets_of_mem hc
  exact hmoment ▸ hz.inside t ht

/-- Every offset is less than a day. -/
theorem natAbs_offset_lt (hz : z.IsRegular) (w : Wall) (later : Bool) :
    (z.offset w later).natAbs < day := by
  rw [offset, offsetAfter]
  cases hl : (z.come (Change.turn later) w.ticks).getLast? with
  | none => exact hz.first_lt
  | some c =>
    have hc : c ∈ z.changes := (List.takeWhile_prefix _).subset (List.mem_of_getLast? hl)
    exact (hz.natAbs_lt hc).2

/-- Of the changes of a regular zone, each one precedes all that follow. -/
theorem IsRegular.pairwise (hz : z.IsRegular) : z.changes.Pairwise Change.Precedes := by
  have : Trans Change.Precedes Change.Precedes Change.Precedes := ⟨Change.Precedes.trans⟩
  exact (isChain_precedes hz.spaced).pairwise

/-- Of two changes, one precedes the other. -/
theorem IsRegular.eq_or_precedes (hz : z.IsRegular) (hc : c ∈ z.changes) (hd : d ∈ z.changes) :
    c = d ∨ c.Precedes d ∨ d.Precedes c := by
  have hpairwise : z.changes.Pairwise fun c d => c.Precedes d ∨ d.Precedes c :=
    hz.pairwise.imp Or.inl
  have : Std.Symm fun c d : Change => c.Precedes d ∨ d.Precedes c := ⟨fun _ _ h => h.symm⟩
  by_cases h : c = d
  · exact .inl h
  · exact .inr (hpairwise.forall hc hd h)

/-! ### Cuts -/

/-- A cut of the changes into those that have come at a time and those that have not. -/
structure Cut (z : Zone) (due : Change → Int) (t : Int) (come ahead : List Change) : Prop where
  changes_eq : z.changes = come ++ ahead
  due_le     : ∀ c ∈ come, due c ≤ t
  lt_due     : ∀ c ∈ ahead, t < due c

variable {due : Change → Int} {t : Int}

theorem Cut.mem_of_come (h : z.Cut due t come ahead) (hc : c ∈ come) : c ∈ z.changes :=
  h.changes_eq ▸ List.mem_append_left _ hc

theorem Cut.mem_of_ahead (h : z.Cut due t come ahead) (hd : d ∈ ahead) : d ∈ z.changes :=
  h.changes_eq ▸ List.mem_append_right _ hd

/-- What is due has come. -/
theorem Cut.mem_come (h : z.Cut due t come ahead) (hc : c ∈ z.changes) (hdue : due c ≤ t) :
    c ∈ come := by
  rw [h.changes_eq, List.mem_append] at hc
  exact hc.resolve_right fun hd => Int.not_le.mpr (h.lt_due c hd) hdue

/-- What is not due is ahead. -/
theorem Cut.mem_ahead (h : z.Cut due t come ahead) (hc : c ∈ z.changes) (hdue : t < due c) :
    c ∈ ahead := by
  rw [h.changes_eq, List.mem_append] at hc
  exact hc.resolve_left fun hd => Int.not_lt.mpr (h.due_le c hd) hdue

theorem Cut.come_eq (h : z.Cut due t come ahead) : z.come due t = come := by
  have hcome : come.takeWhile (due · ≤ t) = come :=
    List.takeWhile_eq_self_iff.mpr fun c hc => decide_eq_true (h.due_le c hc)
  have hahead : ahead.takeWhile (due · ≤ t) = [] := by
    cases ahead with
    | nil => rfl
    | cons n ahead =>
      rw [List.takeWhile_cons_of_neg]
      simpa using h.lt_due n (List.mem_cons_self ..)
  rw [Zone.come, h.changes_eq, List.takeWhile_append, hcome, if_pos rfl, hahead, List.append_nil]

/-- Of the changes that have come, all others precede the last one. -/
theorem exists_getLast? (hz : z.IsRegular) (h : z.changes = come ++ ahead) (hc : c ∈ come) :
    ∃ e ∈ come.getLast?, c = e ∨ c.Precedes e := by
  have hpairwise := hz.pairwise
  rw [h, List.pairwise_append] at hpairwise
  obtain ⟨e, he⟩ : ∃ e, come.getLast? = some e :=
    Option.isSome_iff_exists.mp (List.getLast?_isSome.mpr (List.ne_nil_of_mem hc))
  obtain ⟨before, rfl⟩ := List.getLast?_eq_some_iff.mp he
  refine ⟨e, he, ?_⟩
  rcases List.mem_append.mp hc with hc | hc
  · exact .inr ((List.pairwise_append.mp hpairwise.1).2.2 c hc e (List.mem_singleton_self e))
  · exact .inl (List.mem_singleton.mp hc)

/-- Of those that have not come, the first one precedes all others. -/
theorem exists_head? (hz : z.IsRegular) (h : z.changes = come ++ ahead) (hd : d ∈ ahead) :
    ∃ n ∈ ahead.head?, d = n ∨ n.Precedes d := by
  have hpairwise := hz.pairwise
  rw [h, List.pairwise_append] at hpairwise
  cases ahead with
  | nil => cases hd
  | cons n ahead =>
    refine ⟨n, rfl, ?_⟩
    rcases List.mem_cons.mp hd with rfl | hd
    · exact .inl rfl
    · exact .inr (List.rel_of_pairwise_cons hpairwise.2.1 hd)

/-- Those that have come precede those that have not. -/
theorem precedes_of_mem (hz : z.IsRegular) (h : z.changes = come ++ ahead) (hc : c ∈ come)
    (hd : d ∈ ahead) : c.Precedes d := by
  have hpairwise := hz.pairwise
  rw [h, List.pairwise_append] at hpairwise
  exact hpairwise.2.2 c hc d hd

/-- A cut is found by the changes next to it. -/
theorem cut_of_neighbours (hz : z.IsRegular) (hdue : ∀ c d : Change, c.Precedes d → due c ≤ due d)
    (h : z.changes = come ++ ahead) (hlast : ∀ c ∈ come.getLast?, due c ≤ t)
    (hnext : ∀ d ∈ ahead.head?, t < due d) : z.Cut due t come ahead := by
  refine ⟨h, fun c hc => ?_, fun d hd => ?_⟩
  · obtain ⟨e, he, rfl | hprecedes⟩ := exists_getLast? hz h hc
    · exact hlast c he
    · exact Int.le_trans (hdue c e hprecedes) (hlast e he)
  · obtain ⟨n, hn, rfl | hprecedes⟩ := exists_head? hz h hd
    · exact hnext d hn
    · exact Int.lt_of_lt_of_le (hnext n hn) (hdue n d hprecedes)

/-- There is a cut at any time. -/
theorem exists_cut (hz : z.IsRegular) (hdue : ∀ c d : Change, c.Precedes d → due c ≤ due d)
    (t : Int) : ∃ come ahead, z.Cut due t come ahead := by
  refine ⟨z.changes.takeWhile (due · ≤ t), z.changes.dropWhile (due · ≤ t),
    cut_of_neighbours hz hdue List.takeWhile_append_dropWhile.symm ?_ ?_⟩
  · intro c hc
    simpa using List.mem_takeWhile_imp (List.mem_of_getLast? hc)
  · intro d hd
    have hn := List.head?_dropWhile_not (due · ≤ t) z.changes
    rw [hd] at hn
    simpa using hn

theorem moment_le_of_precedes (c d : Change) (h : c.Precedes d) : c.moment ≤ d.moment :=
  Int.le_of_lt h.moment_lt

theorem turn_le_of_precedes (later : Bool) (c d : Change) (h : c.Precedes d) :
    c.turn later ≤ d.turn later := by
  have hlt := h.turn_lt later later
  omega

/-- After the last change that has come, clocks have the offset that it leaves. -/
theorem offsetAfter_come_of_le (hz : z.IsRegular)
    (hdue : ∀ c d : Change, c.Precedes d → due c ≤ due d) (hc : c ∈ z.changes) (hle : due c ≤ t)
    (hnext : ∀ d, c.Precedes d → t < due d) : z.offsetAfter (z.come due t) = c.after := by
  obtain ⟨come, ahead, hcut⟩ := exists_cut hz hdue t
  obtain ⟨e, he, hce⟩ := exists_getLast? hz hcut.changes_eq (hcut.mem_come hc hle)
  have hcome := hcut.due_le e (List.mem_of_getLast? he)
  obtain rfl : c = e := hce.resolve_right fun h => Int.not_lt.mpr hcome (hnext e h)
  rw [hcut.come_eq, offsetAfter_of_getLast? he]

/-- Before the first change that is ahead, clocks have the offset from which it starts. -/
theorem offsetAfter_come_of_lt (hz : z.IsRegular)
    (hdue : ∀ c d : Change, c.Precedes d → due c ≤ due d) (hc : c ∈ z.changes) (hlt : t < due c)
    (hprevious : ∀ d, d.Precedes c → due d ≤ t) : z.offsetAfter (z.come due t) = c.before := by
  obtain ⟨come, ahead, hcut⟩ := exists_cut hz hdue t
  obtain ⟨n, hn, hnc⟩ := exists_head? hz hcut.changes_eq (hcut.mem_ahead hc hlt)
  have hahead := hcut.lt_due n (List.mem_of_mem_head? hn)
  obtain rfl : c = n := hnc.resolve_right fun h => Int.not_lt.mpr (hprevious n h) hahead
  rw [hcut.come_eq, before_of_head? hcut.changes_eq hn]

/-! ### Readings of times -/

theorem offset_of_cut (h : z.Cut (Change.turn later) w.ticks come ahead) :
    z.offset w later = z.offsetAfter come := by
  rw [offset, h.come_eq]

/-- While the times that a change moves last, its offsets are those of the two readings. -/
theorem offset_of_turned (hz : z.IsRegular) (hc : c ∈ z.changes) (h : c.turn true ≤ w.ticks)
    (h' : w.ticks < c.turn false) : z.offset w true = c.after ∧ z.offset w false = c.before := by
  constructor
  · refine offsetAfter_come_of_le hz (turn_le_of_precedes true) hc h fun d hd => ?_
    have hfar := hd.turn_lt false true
    omega
  · refine offsetAfter_come_of_lt hz (turn_le_of_precedes false) hc h' fun d hd => ?_
    have hfar := hd.turn_lt false true
    omega

/-- At all other times the two readings are the same. -/
theorem offset_of_not_turned (hz : z.IsRegular)
    (h : ∀ c ∈ z.changes, c.turn true ≤ w.ticks → c.turn false ≤ w.ticks) :
    z.offset w true = z.offset w false := by
  obtain ⟨come, ahead, hcut⟩ := exists_cut hz (turn_le_of_precedes true) w.ticks
  have hcut' : z.Cut (Change.turn false) w.ticks come ahead := by
    refine ⟨hcut.changes_eq, fun c hc => ?_, fun d hd => ?_⟩
    · exact h c (hcut.mem_of_come hc) (hcut.due_le c hc)
    · exact Int.lt_of_lt_of_le (hcut.lt_due d hd) (d.turn_mem true).2
  rw [offset_of_cut hcut, offset_of_cut hcut']

end Zone

/-- Whether a change puts clocks forward past a time. -/
def Change.Skips (c : Change) (w : Wall) : Prop :=
  c.moment + c.before ≤ w.ticks ∧ w.ticks < c.moment + c.after

/-- Whether a change puts clocks back to before a time that has been shown. -/
def Change.Repeats (c : Change) (w : Wall) : Prop :=
  c.moment + c.after ≤ w.ticks ∧ w.ticks < c.moment + c.before

theorem Change.Skips.turn (h : c.Skips w) : c.turn true ≤ w.ticks ∧ w.ticks < c.turn false := by
  rw [Skips] at h
  rw [turn_true, turn_false]
  omega

theorem Change.Repeats.turn (h : c.Repeats w) : c.turn true ≤ w.ticks ∧ w.ticks < c.turn false := by
  rw [Repeats] at h
  rw [turn_true, turn_false]
  omega

namespace Zone

/-- The readings of a time differ exactly if a change moves it: for a time that is skipped, the later
    reading has the greater offset, and for one that is shown twice, the earlier. -/
theorem offset_cases (hz : z.IsRegular) (w : Wall) :
    (∃ c ∈ z.changes, c.Skips w ∧ z.offset w true = c.after ∧ z.offset w false = c.before) ∨
      (∃ c ∈ z.changes, c.Repeats w ∧ z.offset w true = c.after ∧ z.offset w false = c.before) ∨
        (∀ c ∈ z.changes, ¬c.Skips w ∧ ¬c.Repeats w) ∧ z.offset w true = z.offset w false := by
  by_cases h : ∃ c ∈ z.changes, c.turn true ≤ w.ticks ∧ w.ticks < c.turn false
  · obtain ⟨c, hc, hle, hlt⟩ := h
    obtain ⟨htrue, hfalse⟩ := offset_of_turned hz hc hle hlt
    rw [Change.turn_true] at hle
    rw [Change.turn_false] at hlt
    rcases Int.le_total c.before c.after with hba | hab
    · exact .inl ⟨c, hc, ⟨by omega, by omega⟩, htrue, hfalse⟩
    · exact .inr (.inl ⟨c, hc, ⟨by omega, by omega⟩, htrue, hfalse⟩)
  · have hnone : ∀ c ∈ z.changes, c.turn true ≤ w.ticks → c.turn false ≤ w.ticks :=
      fun c hc hle => Int.not_lt.mp fun hlt => h ⟨c, hc, hle, hlt⟩
    exact .inr (.inr ⟨fun c hc => ⟨fun hs => h ⟨c, hc, hs.turn⟩, fun hr => h ⟨c, hc, hr.turn⟩⟩,
      offset_of_not_turned hz hnone⟩)

/-! ### Clocks in Paris -/

/-- The last Sunday of a month, counted in days. The first day of the calendar is a Monday. -/
def lastSunday (year month : Nat) : Nat :=
  let last := daysBeforeYear year + daysBeforeMonth year month + daysInMonth year month - 1
  last - (last + 1) % 7

/-- The turns of a year in Paris, at one in the morning in UTC. -/
def turnsIn (year : Nat) : List Turn :=
  [⟨day * lastSunday year 3 + hour, 2 * hour⟩, ⟨day * lastSunday year 10 + hour, hour⟩]

/-- Paris, with the changes of clocks from 2022 to 2024. -/
def paris : Zone :=
  ⟨"Europe/Paris", hour, [2022, 2023, 2024].flatMap turnsIn⟩

theorem isRegular_paris : paris.IsRegular := by
  decide +kernel

end Zone

end Almanac.Calendar
