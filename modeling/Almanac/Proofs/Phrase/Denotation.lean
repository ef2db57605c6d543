import Almanac.Proofs.Phrase.Vocabulary

/-!
# What a phrase denotes

The numbers that a phrase keeps may denote a time of day, a date and an offset, or none. Which of
them a phrase can keep is fixed by its row. The time of day of a phrase is found exactly if it is
real.
-/

namespace Almanac.Phrase

open Calendar Text Shape

/-! ### Real values -/

/-- The number kept for a field, zero if it was left out. -/
def numberAt (c : Captures) (f : Field) : Nat :=
  digitsValue ((c.lookup f).getD [])

/-- Whether an hour and a minute are those of a time of day: with a half of the day the hour counts
    from 1 to 12, without one from 0 to 23. -/
def IsClock (hour minute : Nat) (halved : Bool) : Prop :=
  minute ≤ 59 ∧ if halved then 1 ≤ hour ∧ hour ≤ 12 else hour ≤ 23

/-- Whether the time of day that is kept, if there is one, is real. -/
def HasRealClock (c : Captures) : Prop :=
  ∀ v, c.lookup .hour = some v →
    IsClock (digitsValue v) (numberAt c .minute) (c.lookup .meridiem).isSome

/-- Whether the date that is kept, if there is one, is in the calendar. -/
def HasRealDate (c : Captures) : Prop :=
  ∀ v, c.lookup .year = some v → ∃ d : Date,
    d.year = digitsValue v ∧ d.month = numberAt c .month ∧ d.day = numberAt c .day

/-- Whether the offset that a row counts, if it counts one, can be read, is positive, and leads from
    the reference to a time in the calendar. -/
def HasRealOffset (row : Row) (c : Captures) (now : Instant) : Prop :=
  ∀ u, row.unit? = some u → ((c.lookup .amount).getD []).length ≤ maxDigits ∧
    0 < numberAt c .amount ∧ ∃ w : Wall, w.ticks = now.wall.ticks + u * numberAt c .amount

/-- Whether the numbers kept by a row denote real values, for a reference instant. -/
structure Denotes (row : Row) (c : Captures) (now : Instant) : Prop where
  clock  : HasRealClock c
  date   : HasRealDate c
  offset : HasRealOffset row c now

variable {row : Row} {t v : List Char} {c : Captures} {f : Field} {now : Instant}

/-! ### Fields of rows -/

/-- Whether a row has the fields of a time of day. -/
def Row.HasClock (row : Row) : Prop :=
  Field.hour ∈ row.shape.fields ∧ Field.minute ∈ row.shape.fields ∧
    Field.meridiem ∈ row.shape.fields

instance (row : Row) : Decidable row.HasClock := inferInstanceAs (Decidable (_ ∧ _))

/-- A row that needs an hour has a time of day, and neither a date nor an offset. -/
theorem Row.of_requires_hour (h : row.shape.requires .hour = true) :
    row.HasClock ∧ .year ∉ row.shape.fields ∧ row.unit? = none := by
  revert h
  cases row <;> decide

/-- A row that needs a year has a date and a time of day, and no offset. -/
theorem Row.of_requires_year (h : row.shape.requires .year = true) :
    row.HasClock ∧ .month ∈ row.shape.fields ∧ .day ∈ row.shape.fields ∧ row.unit? = none := by
  revert h
  cases row <;> decide

/-- A row that needs a unit has an offset, and neither a time of day nor a date. -/
theorem Row.of_requires_unit (h : row.shape.requires .unit = true) :
    .amount ∈ row.shape.fields ∧ .hour ∉ row.shape.fields ∧ .year ∉ row.shape.fields := by
  revert h
  cases row <;> decide

/-- Whether a row has neither a time of day nor a date nor an offset. -/
def Row.IsUnnumbered (row : Row) : Prop :=
  .hour ∉ row.shape.fields ∧ .year ∉ row.shape.fields ∧ row.unit? = none

instance (row : Row) : Decidable row.IsUnnumbered := inferInstanceAs (Decidable (_ ∧ _))

/-! ### Kept parts -/

theorem lookup_eq_none_of_not_mem (h : row.shape.Reads t c) (hf : f ∉ row.shape.fields) :
    c.lookup f = none := by
  rw [Option.eq_none_iff_forall_ne_some]
  intro v hv
  apply hf
  obtain ⟨slot, hmem, -⟩ := h.exists_slot hv
  rw [← map_fst_slots]
  exact List.mem_map_of_mem hmem

theorem field_eq (hf : f ∈ row.shape.fields) :
    Reading.field ⟨row, c⟩ f = .ok (c.lookup f) :=
  if_pos hf

theorem number_eq (hf : f ∈ row.shape.fields) :
    Reading.number ⟨row, c⟩ f = .ok (numberAt c f) := by
  rw [Reading.number, field_eq hf]
  rfl

/-! ### What is left out is real -/

theorem hasRealClock_of_lookup (h : c.lookup .hour = none) : HasRealClock c := by
  intro v hv
  rw [h] at hv
  cases hv

theorem hasRealDate_of_lookup (h : c.lookup .year = none) : HasRealDate c := by
  intro v hv
  rw [h] at hv
  cases hv

theorem hasRealOffset_of_unit? (h : row.unit? = none) : HasRealOffset row c now := by
  intro u hu
  rw [h] at hu
  cases hu

/-- Where an hour is needed, a phrase denotes a time if its time of day is real. -/
theorem Denotes.of_hasRealClock (h : row.shape.Reads t c) (hr : row.shape.requires .hour = true)
    (hc : HasRealClock c) : Denotes row c now := by
  obtain ⟨-, hyear, hunit⟩ := Row.of_requires_hour hr
  constructor
  · exact hc
  · exact hasRealDate_of_lookup (lookup_eq_none_of_not_mem h hyear)
  · exact hasRealOffset_of_unit? hunit

/-- Where a unit is needed, a phrase denotes a time if its offset is real. -/
theorem Denotes.of_hasRealOffset (h : row.shape.Reads t c) (hr : row.shape.requires .unit = true)
    (ho : HasRealOffset row c now) : Denotes row c now := by
  obtain ⟨-, hhour, hyear⟩ := Row.of_requires_unit hr
  constructor
  · exact hasRealClock_of_lookup (lookup_eq_none_of_not_mem h hhour)
  · exact hasRealDate_of_lookup (lookup_eq_none_of_not_mem h hyear)
  · exact ho

/-- A phrase without numbers denotes a time. -/
theorem Denotes.of_isUnnumbered (h : row.shape.Reads t c) (hr : row.IsUnnumbered) :
    Denotes row c now := by
  obtain ⟨hhour, hyear, hunit⟩ := hr
  constructor
  · exact hasRealClock_of_lookup (lookup_eq_none_of_not_mem h hhour)
  · exact hasRealDate_of_lookup (lookup_eq_none_of_not_mem h hyear)
  · exact hasRealOffset_of_unit? hunit

/-! ### Times of day -/

/-- A time of day is read exactly if there is one with the given numbers. -/
theorem exists_readClock_iff (hour minute : Nat) {meridiem : Option String}
    (hne : ∀ s ∈ meridiem, s ≠ "") :
    (∃ k, readClock hour minute meridiem = .ok k) ↔ IsClock hour minute meridiem.isSome := by
  have hfilter : meridiem.filter (· ≠ "") = meridiem := by
    cases meridiem with
    | none => rfl
    | some s => exact Option.filter_eq_some_iff.mpr ⟨rfl, by simpa using hne s rfl⟩
  rw [readClock, hfilter, IsClock]
  split
  · constructor
    · rintro ⟨k, hk⟩
      cases hk
    · rintro ⟨hm, -⟩
      omega
  · cases meridiem with
    | none =>
      dsimp only [Option.isSome_none]
      split
      · constructor
        · rintro ⟨k, hk⟩
          cases hk
        · rintro ⟨-, hh⟩
          rw [if_neg Bool.false_ne_true] at hh
          omega
      · constructor
        · intro _
          rw [if_neg Bool.false_ne_true]
          omega
        · intro _
          exact ⟨_, rfl⟩
    | some s =>
      dsimp only [Option.isSome_some]
      rw [if_pos rfl]
      split
      · constructor
        · rintro ⟨k, hk⟩
          cases hk
        · rintro ⟨-, hh⟩
          omega
      · constructor
        · intro _
          omega
        · intro _
          exact ⟨_, rfl⟩

theorem clock_of_lookup_eq_none {otherwise : Option Clock} (hrow : row.HasClock)
    (hv : c.lookup .hour = none) :
    Reading.clock ⟨row, c⟩ otherwise =
      match otherwise with
      | some k => .ok k
      | none   => .error (.noHour row) := by
  cases otherwise with
  | none => simp only [Reading.clock, field_eq hrow.1, hv, bind, Except.bind]
  | some k => simp only [Reading.clock, field_eq hrow.1, hv, bind, Except.bind]

theorem clock_of_lookup_eq_some {otherwise : Option Clock} (hrow : row.HasClock)
    (hv : c.lookup .hour = some v) :
    Reading.clock ⟨row, c⟩ otherwise =
      (readClock (digitsValue v) (numberAt c .minute)
        ((c.lookup .meridiem).map String.ofList)).mapError .refused := by
  simp only [Reading.clock, field_eq hrow.1, field_eq hrow.2.2, number_eq hrow.2.1, hv, bind,
    Except.bind]

/-- The time of day of a phrase is found exactly if it is real, and refused otherwise. -/
theorem clock_cases (otherwise : Option Clock) (h : row.shape.Reads t c) (hrow : row.HasClock)
    (hhour : row.shape.requires .hour = true ∨ otherwise.isSome = true) :
    (HasRealClock c ∧ ∃ k, Reading.clock ⟨row, c⟩ otherwise = .ok k) ∨
      (¬HasRealClock c ∧ ∃ why, Reading.clock ⟨row, c⟩ otherwise = .error (.refused why)) := by
  cases hv : c.lookup .hour with
  | none =>
    rw [clock_of_lookup_eq_none hrow hv]
    refine .inl ⟨hasRealClock_of_lookup hv, ?_⟩
    rcases hhour with hr | hr
    · obtain ⟨v, hv'⟩ := h.exists_lookup hr
      rw [hv] at hv'
      cases hv'
    · obtain ⟨k, rfl⟩ := Option.isSome_iff_exists.mp hr
      exact ⟨k, rfl⟩
  | some v =>
    have hne : ∀ s ∈ (c.lookup .meridiem).map String.ofList, s ≠ "" := by
      intro s hs
      obtain ⟨w, hw, rfl⟩ := Option.map_eq_some_iff.mp hs
      exact ofList_ne_empty_of_lookup h hw
    have hiff := exists_readClock_iff (digitsValue v) (numberAt c .minute) hne
    rw [Option.isSome_map] at hiff
    have hreal : HasRealClock c ↔
        IsClock (digitsValue v) (numberAt c .minute) (c.lookup .meridiem).isSome := by
      rw [HasRealClock, hv]
      constructor
      · intro hc
        exact hc v rfl
      · intro hc w hw
        obtain rfl := Option.some.inj hw
        exact hc
    rw [clock_of_lookup_eq_some hrow hv, hreal, ← hiff]
    cases hk : readClock (digitsValue v) (numberAt c .minute)
        ((c.lookup .meridiem).map String.ofList) with
    | ok k => exact .inl ⟨⟨k, rfl⟩, k, rfl⟩
    | error why =>
      refine .inr ⟨?_, why, rfl⟩
      rintro ⟨k, hk'⟩
      cases hk'

end Almanac.Phrase
