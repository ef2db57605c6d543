import Almanac.Phrase.Restatement
import Almanac.Proofs.Phrase.Captured
import Almanac.Proofs.Phrase.NormalForm

/-!
# The names of units and weekdays

The names that shapes read and the names that have a meaning are listed apart, and the first are
read up to case. In a normal form they agree, unless a stray letter stands for an s or an i.
-/

namespace Almanac.Phrase

open Calendar Text Shape

/-- The unit that a row counts in, if it counts. -/
def Row.unit? : Row → Option Nat
  | .inMinutes => some minute
  | .inHours   => some hour
  | .inDays    => some day
  | .inWeeks   => some week
  | _          => none

/-! ### Words kept in slots -/

/-- Whether a slot is for words, all of which pass a test. -/
def Slot.all (p : String → Bool) : Slot → Bool
  | .number   => false
  | .oneOf ws => ws.all p

variable {row : Row} {t v : List Char} {c : Captures} {f : Field} {p : String → Bool}

/-- What is kept for a field of words is, up to case, a word that passes every test that all the
    words of the field pass. -/
theorem exists_word_of_lookup (h : row.shape.Reads t c) (hf : c.lookup f = some v)
    (hp : ∀ e ∈ row.shape.slots, e.1 = f → e.2.all p = true) :
    ∃ w, p w = true ∧ v.map caseless = w.toList := by
  obtain ⟨slot, hmem, hv⟩ := h.exists_slot hf
  have hall := hp _ hmem rfl
  cases slot with
  | number => cases hall
  | oneOf ws =>
    obtain ⟨w, hw, he⟩ := hv
    exact ⟨w, List.all_eq_true.mp hall w hw, he⟩

/-- A part of a normal form without strays is kept as the word that it is read for. -/
theorem eq_ofList_of_map_caseless {w : String} (hs : ∀ x ∈ v, IsSmall x) (hv : ∀ x ∈ v, ¬IsStray x)
    (h : v.map caseless = w.toList) : String.ofList v = w := by
  have hid : v.map caseless = v := by
    refine (List.map_congr_left fun x hx => ?_).trans (List.map_id v)
    exact caseless_of_isSmall (hs x hx) (hv x hx)
  rw [← hid, h, String.ofList_toList]

/-! ### Known names -/

/-- The days of the week whose names begin with a word, up to case. -/
def weekdaysWith (w : List Char) : List Nat :=
  (longWeekdays.zipIdx.filter fun e => w.isPrefixOf (e.1.toList.map caseless)).map Prod.snd

/-- Each word for a weekday begins the name of one day of the week, which is its meaning. -/
theorem all_weekday_slots (row : Row) : ∀ e ∈ row.shape.slots, e.1 = .weekday →
    e.2.all (fun w => w.toList.all Char.isLower &&
      (weekdaysWith w.toList).map some == [weekdayNames.lookup w]) = true := by
  cases row <;> decide

theorem all_unit_slots (row : Row) : ∀ e ∈ row.shape.slots, e.1 = .unit →
    e.2.all (fun w => (unitOf w).toOption.isSome && (unitOf w).toOption == row.unit?) = true := by
  cases row <;> decide

theorem all_meridiem_slots (row : Row) : ∀ e ∈ row.shape.slots, e.1 = .meridiem →
    e.2.all (fun w => w == "am" || w == "pm") = true := by
  cases row <;> decide

/-- No name has a stray letter. -/
theorem not_isStray_of_mem_names {e : String × Nat} (he : e ∈ weekdayNames ++ unitNames)
    {x : Char} (hx : x ∈ e.1.toList) : ¬IsStray x := by
  have hall : (weekdayNames ++ unitNames).all
      (fun e => e.1.toList.all fun x => !decide (IsStray x)) = true := by
    decide
  have hx' := List.all_eq_true.mp (List.all_eq_true.mp hall e he) x hx
  rwa [Bool.not_eq_true', decide_eq_false_iff_not] at hx'

theorem lookup_eq_none_of_isStray {names : List (String × Nat)}
    (hn : names ⊆ weekdayNames ++ unitNames) {s : String} {x : Char} (hx : x ∈ s.toList)
    (hs : IsStray x) : names.lookup s = none := by
  rw [List.lookup_eq_none_iff]
  intro e he
  rw [bne_iff_ne]
  rintro rfl
  exact not_isStray_of_mem_names (hn he) hx hs

/-! ### Names in normal forms -/

/-- Whether the name of a unit or a weekday is kept with a stray letter. -/
def HasStrayName (c : Captures) : Prop :=
  ∃ f v x, (f = .unit ∨ f = .weekday) ∧ c.lookup f = some v ∧ x ∈ v ∧ IsStray x

theorem isSmall_of_lookup (h : row.shape.Reads (normalize t) c) (hf : c.lookup f = some v) :
    ∀ x ∈ v, IsSmall x :=
  fun _ hx => isSmall_of_mem_normalize (h.subset hf hx)

/-- A name without strays, as it is kept, is a word that passes every test for the names of its
    field. -/
theorem test_ofList_of_lookup (h : row.shape.Reads (normalize t) c) (hf : c.lookup f = some v)
    (hn : f = .unit ∨ f = .weekday) (hs : ¬HasStrayName c)
    (hp : ∀ e ∈ row.shape.slots, e.1 = f → e.2.all p = true) : p (String.ofList v) = true := by
  obtain ⟨w, hw, he⟩ := exists_word_of_lookup h hf hp
  have hv : ∀ x ∈ v, ¬IsStray x := fun x hx hstray => hs ⟨f, v, x, hn, hf, hx, hstray⟩
  rw [eq_ofList_of_map_caseless (isSmall_of_lookup h hf) hv he]
  exact hw

/-- The name of a weekday is known if it has no stray letter, and is the beginning of one name. -/
theorem exists_weekdayOf (h : row.shape.Reads (normalize t) c) (hf : c.lookup .weekday = some v)
    (hs : ¬HasStrayName c) :
    ∃ n, weekdayOf (String.ofList v) = .ok n ∧ weekdaysWith v = [n] := by
  have hw := test_ofList_of_lookup h hf (.inr rfl) hs (all_weekday_slots row)
  rw [Bool.and_eq_true, beq_iff_eq] at hw
  obtain ⟨hlower, hmeaning⟩ := hw
  obtain ⟨n, hone, hn⟩ := List.map_eq_singleton_iff.mp hmeaning
  rw [String.toList_ofList] at hone
  exact ⟨n, by rw [weekdayOf, lowerString_of_isLower hlower, ← hn], hone⟩

/-- The name of a unit is that of the row's unit if it has no stray letter. -/
theorem exists_unitOf (h : row.shape.Reads (normalize t) c) (hf : c.lookup .unit = some v)
    (hs : ¬HasStrayName c) : ∃ n, row.unit? = some n ∧ unitOf (String.ofList v) = .ok n := by
  have hw := test_ofList_of_lookup h hf (.inl rfl) hs (all_unit_slots row)
  rw [Bool.and_eq_true, beq_iff_eq] at hw
  cases hn : unitOf (String.ofList v) with
  | ok n =>
    rw [hn] at hw
    exact ⟨n, hw.2.symm, rfl⟩
  | error e =>
    rw [hn] at hw
    cases hw.1

theorem weekdayOf_of_isStray {x : Char} (hx : x ∈ v) (hs : IsStray x) :
    weekdayOf (String.ofList v) = .error (.unknownWeekday (String.ofList v)) := by
  have hx' : x ∈ (lowerString (String.ofList v)).toList := by
    rw [lowerString, String.toList_ofList, String.toList_ofList]
    exact mem_lowerFrom_of_isStray hs hx
  rw [weekdayOf, lookup_eq_none_of_isStray (List.subset_append_left ..) hx' hs]

theorem unitOf_of_isStray {x : Char} (hx : x ∈ v) (hs : IsStray x) :
    unitOf (String.ofList v) = .error (.unknownUnit (String.ofList v)) := by
  have hx' : x ∈ (String.ofList v).toList := by rwa [String.toList_ofList]
  rw [unitOf, lookup_eq_none_of_isStray (List.subset_append_right ..) hx' hs]

theorem exists_half_of_lookup (h : row.shape.Reads t c) (hf : c.lookup .meridiem = some v) :
    ∃ w, (w = "am" ∨ w = "pm") ∧ v.map caseless = w.toList := by
  obtain ⟨w, hw, he⟩ := exists_word_of_lookup h hf (all_meridiem_slots row)
  rw [Bool.or_eq_true, beq_iff_eq, beq_iff_eq] at hw
  exact ⟨w, hw, he⟩

/-- A half of the day, as it is kept, is not the empty text. -/
theorem ofList_ne_empty_of_lookup (h : row.shape.Reads t c) (hf : c.lookup .meridiem = some v) :
    String.ofList v ≠ "" := by
  obtain ⟨w, hw, he⟩ := exists_half_of_lookup h hf
  intro hv
  obtain rfl : v = [] := by simpa using congrArg String.toList hv
  have hnil : w = "" := by simpa using he.symm
  rw [hnil] at hw
  exact absurd hw (by decide)

end Almanac.Phrase
