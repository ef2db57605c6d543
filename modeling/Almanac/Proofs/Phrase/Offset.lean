import Almanac.Proofs.Phrase.Interpretation
import Almanac.Proofs.Phrase.PlainText

/-!
# Offsets from the reference

A number of units of time leads ahead of the reference on its wall clock, by just that much, in the
earlier of two readings. Such a phrase can be written with every name of a unit.
-/

namespace Almanac.Phrase

open Calendar Text Shape

variable {row : Row} {text : List Char} {c : Captures} {now i : Instant} {n u : Nat} {unit : String}

/-! ### Where an offset leads -/

theorem Row.of_unit? (h : row.unit? = some u) :
    row.shape.requires .unit = true ∧ row.rule = .relativeOffset ∧
      row.category = .relativeOffset := by
  cases row with
  | inMinutes => exact ⟨rfl, rfl, rfl⟩
  | inHours => exact ⟨rfl, rfl, rfl⟩
  | inDays => exact ⟨rfl, rfl, rfl⟩
  | inWeeks => exact ⟨rfl, rfl, rfl⟩
  | _ => cases h

/-- The instant that an offset names is that much ahead on the wall clock. -/
theorem ticks_eq_of_resolve (h : row.shape.Reads (normalize text) c) (hu : row.unit? = some u)
    (hi : Reading.resolve ⟨row, c⟩ now = .ok i) :
    i.later = false ∧ 0 < numberAt c .amount ∧
      (i.wall.ticks : Int) = now.wall.ticks + u * numberAt c .amount := by
  obtain ⟨hr, hrule, -⟩ := Row.of_unit? hu
  obtain ⟨v, hv⟩ := h.exists_lookup hr
  obtain ⟨m, hm, hname⟩ := exists_unitOf h hv (not_hasStrayName_of_resolve h hi)
  obtain rfl : u = m := Option.some.inj (hu.symm.trans hm)
  rw [Reading.resolve, hrule, Rule.resolve,
    relativeOffsetOf_eq (mem_fields_of_requires hr) (Row.of_requires_unit hr).1 hv hname] at hi
  split at hi
  · cases hi
  · split at hi
    · cases hi
    · next hne =>
      cases hw : now.wall.shift (u * numberAt c .amount) with
      | error e =>
        rw [Instant.shift, hw] at hi
        cases hi
      | ok w =>
        rw [Instant.shift, hw] at hi
        cases hi
        exact ⟨rfl, Nat.pos_of_ne_zero hne, Wall.shift_eq_ok_iff.mp hw⟩

theorem ticks_eq_of_interpret {category : Category} {words : String}
    (h : row.shape.Reads (normalize text) c) (hu : row.unit? = some u)
    (hi : interpret Row.all text now = .ok (.resolved category i words)) :
    i.later = false ∧ (i.wall.ticks : Int) = now.wall.ticks + u * numberAt c .amount := by
  rw [interpret_of_reads h] at hi
  obtain ⟨-, hres, -⟩ := resolve_of_interpret hi
  obtain ⟨hlater, -, hticks⟩ := ticks_eq_of_resolve h hu hres
  exact ⟨hlater, hticks⟩

/-! ### Writing an offset -/

/-- A number of units of time from now, as it is written. -/
def offsetText (n : Nat) (unit : String) : List Char :=
  "in ".toList ++ decimal n ++ ' ' :: unit.toList

/-- The names of units that a row reads, if it counts. -/
def Row.units (row : Row) : List String :=
  match row.shape with
  | .andThen _ (.oneOf _ ws) => ws
  | _                        => []

/-- Each name of a unit is read by a row that counts in the unit. -/
theorem exists_row_of_mem_unitNames : ∀ e ∈ unitNames, ∃ row ∈ Row.all,
    row.unit? = some e.2 ∧ row.shape = offsetShape row.units ∧ e.1 ∈ row.units := by
  decide

/-- The names of units are plain words in small letters. -/
theorem isPlainWord_of_mem_unitNames : ∀ e ∈ unitNames, IsPlainWord e.1.toList ∧
    e.1.toList.all Char.isLower = true ∧ e.1.toList.map caseless = e.1.toList := by
  decide

/-- A number of units of time from now, with the number in any digits. -/
def amountText (digits : List Char) (unit : String) : List Char :=
  "in ".toList ++ digits ++ ' ' :: unit.toList

variable {ds : List Char}

theorem normalize_amountText (hu : (unit, u) ∈ unitNames) (hne : ds ≠ [])
    (hd : ∀ x ∈ ds, isDigit x = true) : normalize (amountText ds unit) = amountText ds unit := by
  obtain ⟨hplain, hlower, -⟩ := isPlainWord_of_mem_unitNames _ hu
  have hin : IsPlainWord ['i', 'n'] := by decide
  have hspaced : amountText ds unit = spaced [['i', 'n'], ds, unit.toList] := by
    simp [amountText]
  have hword {w : List Char} (h : IsPlainWord w) : w ≠ [] ∧ ∀ x ∈ w, IsInner x :=
    ⟨h.1, fun _ hx => isInner_of_isPlain (h.isPlain hx)⟩
  have hall : ∀ w ∈ [['i', 'n'], ds, unit.toList], w ≠ [] ∧ ∀ x ∈ w, IsInner x := by
    intro w hw
    simp only [List.mem_cons, List.not_mem_nil, or_false] at hw
    rcases hw with rfl | rfl | rfl
    · exact hword hin
    · exact ⟨hne, fun x hx => isInner_of_isDigit (hd x hx)⟩
    · exact hword hplain
  rw [hspaced, normalize_spaced_of_isInner hall, map_spaced lowerChar lowerChar_space]
  simp only [List.map_cons, List.map_nil, map_lowerChar_of_isDigit hd,
    map_lowerChar_of_isLower hlower, map_lowerChar_of_isLower (t := ['i', 'n']) (by decide)]

/-- An amount that is written with a unit is read back, by a row that counts in the unit. -/
theorem exists_reads_amountText (hu : (unit, u) ∈ unitNames) (hne : ds ≠ [])
    (hd : ∀ x ∈ ds, isDigit x = true) :
    ∃ row : Row, row.unit? = some u ∧ row.shape.Reads (normalize (amountText ds unit))
      [(.amount, ds), (.unit, unit.toList)] := by
  obtain ⟨row, -, hrow, hshape, hmem⟩ := exists_row_of_mem_unitNames _ hu
  obtain ⟨-, -, hcase⟩ := isPlainWord_of_mem_unitNames _ hu
  have hin : (word "in").Reads ['i', 'n'] [] := .word (by decide)
  have hamount : (digits .amount 1 none).Reads ds [(.amount, ds)] :=
    .digits hd (List.length_pos_iff.mpr hne) (by simp)
  have hall := (((hin.andThen reads_gap).andThen hamount).andThen reads_space).andThen
    (.oneOf (f := .unit) hmem hcase)
  refine ⟨row, hrow, ?_⟩
  rw [normalize_amountText hu hne hd, hshape]
  simpa [amountText, offsetShape] using hall

/-- An offset that is written is read back, by a row that counts in its unit. -/
theorem exists_reads_offsetText (hu : (unit, u) ∈ unitNames) (n : Nat) :
    ∃ row : Row, row.unit? = some u ∧ row.shape.Reads (normalize (offsetText n unit))
      [(.amount, decimal n), (.unit, unit.toList)] :=
  exists_reads_amountText hu (List.ne_nil_of_length_pos (length_decimal_pos n))
    fun _ => (isDecimal_decimal n).isDigit

end Almanac.Phrase
