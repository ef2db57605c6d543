import Almanac.Phrase.Rule

/-!
# What a phrase keeps

A shape fixes, for each of its fields, what may be kept there: a number, or one of some words up to
case. It also fixes which fields are left out by no phrase.
-/

namespace Almanac.Phrase

open Text

/-- What may be kept for a field. -/
inductive Slot where
  | number
  | oneOf (ws : List String)
  deriving DecidableEq, Repr

/-- Whether a part of a phrase may be kept in a slot. -/
def Slot.Holds : Slot → List Char → Prop
  | .number,   v => ∀ x ∈ v, isDigit x = true
  | .oneOf ws, v => ∃ w ∈ ws, v.map caseless = w.toList

namespace Shape

/-- The fields that a shape may keep, with what it may keep there. -/
def slots : Shape → List (Field × Slot)
  | .word _       => []
  | .gap          => []
  | .space        => []
  | .digits f _ _ => [(f, .number)]
  | .oneOf f ws   => [(f, .oneOf ws)]
  | .optional s   => s.slots
  | .either s u   => s.slots ++ u.slots
  | .andThen s u  => s.slots ++ u.slots

/-- Whether every phrase of a shape keeps something for a field. -/
def requires (f : Field) : Shape → Bool
  | .word _       => false
  | .gap          => false
  | .space        => false
  | .digits g _ _ => g == f
  | .oneOf g _    => g == f
  | .optional _   => false
  | .either s u   => s.requires f && u.requires f
  | .andThen s u  => s.requires f || u.requires f

variable {s u : Shape} {t v : List Char} {c : Captures} {f : Field}

theorem map_fst_slots (s : Shape) : s.slots.map Prod.fst = s.fields := by
  induction s with
  | word w => rfl
  | gap => rfl
  | space => rfl
  | digits g least most => rfl
  | oneOf g ws => rfl
  | optional s ih => exact ih
  | either s u ihs ihu => rw [slots, fields, List.map_append, ihs, ihu]
  | andThen s u ihs ihu => rw [slots, fields, List.map_append, ihs, ihu]

theorem lookup_singleton_eq_some {g : Field} {w : List Char}
    (h : List.lookup f [(g, w)] = some v) : f = g ∧ w = v := by
  rw [List.lookup_cons] at h
  split at h
  · next he => exact ⟨eq_of_beq he, Option.some.inj h⟩
  · cases h

/-- What is kept for a field is what the shape may keep there. -/
theorem Reads.exists_slot (h : s.Reads t c) (hf : c.lookup f = some v) :
    ∃ slot, (f, slot) ∈ s.slots ∧ slot.Holds v := by
  induction h with
  | word h => cases hf
  | gap hne h => cases hf
  | space h => cases hf
  | digits h hl hm =>
    obtain ⟨rfl, rfl⟩ := lookup_singleton_eq_some hf
    exact ⟨.number, List.mem_singleton_self _, h⟩
  | oneOf hw h =>
    obtain ⟨rfl, rfl⟩ := lookup_singleton_eq_some hf
    exact ⟨.oneOf _, List.mem_singleton_self _, _, hw, h⟩
  | skipped => cases hf
  | taken h ih => exact ih hf
  | left h ih =>
    obtain ⟨slot, hmem, hv⟩ := ih hf
    exact ⟨slot, List.mem_append_left _ hmem, hv⟩
  | right h ih =>
    obtain ⟨slot, hmem, hv⟩ := ih hf
    exact ⟨slot, List.mem_append_right _ hmem, hv⟩
  | andThen hs hu ihs ihu =>
    rw [List.lookup_append, Option.or_eq_some_iff] at hf
    rcases hf with hf | ⟨-, hf⟩
    · obtain ⟨slot, hmem, hv⟩ := ihs hf
      exact ⟨slot, List.mem_append_left _ hmem, hv⟩
    · obtain ⟨slot, hmem, hv⟩ := ihu hf
      exact ⟨slot, List.mem_append_right _ hmem, hv⟩

/-- What is kept is part of the text. -/
theorem Reads.subset (h : s.Reads t c) (hf : c.lookup f = some v) : v ⊆ t := by
  induction h with
  | word h => cases hf
  | gap hne h => cases hf
  | space h => cases hf
  | digits h hl hm =>
    obtain ⟨rfl, rfl⟩ := lookup_singleton_eq_some hf
    exact List.Subset.refl _
  | oneOf hw h =>
    obtain ⟨rfl, rfl⟩ := lookup_singleton_eq_some hf
    exact List.Subset.refl _
  | skipped => cases hf
  | taken h ih => exact ih hf
  | left h ih => exact ih hf
  | right h ih => exact ih hf
  | andThen hs hu ihs ihu =>
    rw [List.lookup_append, Option.or_eq_some_iff] at hf
    rcases hf with hf | ⟨-, hf⟩
    · exact List.subset_append_of_subset_left _ (ihs hf)
    · exact List.subset_append_of_subset_right _ (ihu hf)

/-- A field that a shape requires is one of its fields. -/
theorem mem_fields_of_requires (h : s.requires f = true) : f ∈ s.fields := by
  induction s with
  | word w => cases h
  | gap => cases h
  | space => cases h
  | digits g least most =>
    obtain rfl : g = f := eq_of_beq h
    exact List.mem_singleton_self _
  | oneOf g ws =>
    obtain rfl : g = f := eq_of_beq h
    exact List.mem_singleton_self _
  | optional s ih => cases h
  | either s u ihs ihu =>
    rw [requires, Bool.and_eq_true] at h
    exact List.mem_append_left _ (ihs h.1)
  | andThen s u ihs ihu =>
    rw [requires, Bool.or_eq_true] at h
    rcases h with h | h
    · exact List.mem_append_left _ (ihs h)
    · exact List.mem_append_right _ (ihu h)

/-- A field that a shape requires is kept. -/
theorem Reads.exists_lookup (h : s.Reads t c) (hf : s.requires f = true) :
    ∃ v, c.lookup f = some v := by
  induction h with
  | word h => cases hf
  | gap hne h => cases hf
  | space h => cases hf
  | @digits g least most t h hl hm =>
    obtain rfl : g = f := eq_of_beq hf
    exact ⟨t, List.lookup_cons_self⟩
  | @oneOf g ws w t hw h =>
    obtain rfl : g = f := eq_of_beq hf
    exact ⟨t, List.lookup_cons_self⟩
  | skipped => cases hf
  | taken h ih => cases hf
  | left h ih =>
    rw [requires, Bool.and_eq_true] at hf
    exact ih hf.1
  | right h ih =>
    rw [requires, Bool.and_eq_true] at hf
    exact ih hf.2
  | @andThen s u t r c d hs hu ihs ihu =>
    rw [requires, Bool.or_eq_true] at hf
    rw [List.lookup_append]
    rcases hf with hf | hf
    · obtain ⟨v, hv⟩ := ihs hf
      exact ⟨v, by rw [hv, Option.some_or]⟩
    · obtain ⟨v, hv⟩ := ihu hf
      cases hc : c.lookup f with
      | none => exact ⟨v, by rw [Option.none_or, hv]⟩
      | some w => exact ⟨w, Option.some_or⟩

end Shape

end Almanac.Phrase
