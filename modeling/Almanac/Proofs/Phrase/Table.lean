import Almanac.Phrase.Interpretation
import Almanac.Proofs.Phrase.Grammar
import Mathlib.Data.List.Pairwise
import Mathlib.Data.Set.Subsingleton

/-!
# The table is read exactly and without ambiguity

Every row of the table is greedy, so a row reads a text exactly if the text can be split as the
row's shape says, and a text can be split in one way only. No text belongs to two rows, so the
order of the table is of no consequence.
-/

namespace Almanac.Phrase

variable {row r : Row} {t : List Char} {c d : Captures}

/-- A greedy shape reads a text exactly if the text can be split as it says. -/
theorem Shape.readAll?_eq_some_iff {s : Shape} (hg : s.isGreedy .nothing = true) :
    s.readAll? t = some c ↔ s.Reads t c := by
  constructor
  · intro h
    rw [readAll?] at h
    split at h
    · next c' hr =>
      obtain rfl := Option.some.inj h
      obtain ⟨v, rfl, hv⟩ := reads_of_read? hr
      rwa [List.append_nil]
    · cases h
  · intro h
    have hr := h.read?_append (r := []) hg rfl
    rw [List.append_nil] at hr
    rw [readAll?, hr]

namespace Row

theorem isGreedy_shape (row : Row) : row.shape.isGreedy .nothing = true := by
  cases row <;> decide +kernel

theorem isDisjoint_all :
    all.Pairwise fun r s => r.shape.outline.isDisjoint s.shape.outline = true := by
  decide +kernel

/-- A row reads a text exactly if the text can be split as its shape says. -/
theorem readAll?_eq_some_iff : row.shape.readAll? t = some c ↔ row.shape.Reads t c :=
  Shape.readAll?_eq_some_iff row.isGreedy_shape

/-- A text can be split in one way only. -/
theorem reads_unique (hc : row.shape.Reads t c) (hd : row.shape.Reads t d) : c = d :=
  Option.some.inj ((readAll?_eq_some_iff.mpr hc).symm.trans (readAll?_eq_some_iff.mpr hd))

/-- Two rows have no text in common. -/
def Apart (r s : Row) : Prop :=
  ∀ t c d, r.shape.Reads t c → ¬ s.shape.Reads t d

instance : Std.Symm Apart :=
  ⟨fun _ _ h t c d hs hr => h t d c hr hs⟩

theorem apart_of_ne (h : row ≠ r) : row.Apart r := by
  have hall : all.Pairwise Apart := isDisjoint_all.imp fun h t c d hc hd =>
    Outline.not_holds_of_isDisjoint h hc.holds hd.holds
  exact hall.forall (mem_all row) (mem_all r) h

/-- No text belongs to two rows. -/
theorem eq_of_reads (hc : row.shape.Reads t c) (hd : r.shape.Reads t d) : row = r := by
  by_contra hne
  exact apart_of_ne hne t c d hc hd

end Row

namespace Reading

/-- A text is read by the one row whose shape it has, if that is in the table. -/
theorem find?_eq_some_iff {table : List Row} :
    find? table t = some ⟨row, c⟩ ↔ row ∈ table ∧ row.shape.Reads t c := by
  constructor
  · intro h
    obtain ⟨r, hr, hm⟩ := List.exists_of_findSome?_eq_some h
    obtain ⟨d, hd, he⟩ := Option.map_eq_some_iff.mp hm
    obtain ⟨rfl, rfl⟩ := mk.inj he
    exact ⟨hr, Row.readAll?_eq_some_iff.mp hd⟩
  · rintro ⟨hmem, h⟩
    cases hf : find? table t with
    | none =>
      have hn := List.findSome?_eq_none_iff.mp hf row hmem
      rw [Row.readAll?_eq_some_iff.mpr h] at hn
      cases hn
    | some p =>
      obtain ⟨r, d⟩ := p
      obtain ⟨s, hs, hm⟩ := List.exists_of_findSome?_eq_some hf
      obtain ⟨e, he, heq⟩ := Option.map_eq_some_iff.mp hm
      obtain ⟨rfl, rfl⟩ := mk.inj heq
      have hr := Row.readAll?_eq_some_iff.mp he
      obtain rfl := Row.eq_of_reads h hr
      rw [Row.reads_unique h hr]

theorem find?_all_eq_some_iff :
    find? Row.all t = some ⟨row, c⟩ ↔ row.shape.Reads t c := by
  rw [find?_eq_some_iff]
  exact and_iff_right (Row.mem_all row)

theorem find?_eq_none_iff {table : List Row} :
    find? table t = none ↔ ∀ row ∈ table, ∀ c, ¬row.shape.Reads t c := by
  rw [find?, List.findSome?_eq_none_iff]
  apply forall₂_congr
  intro row _
  rw [Option.map_eq_none_iff, Option.eq_none_iff_forall_ne_some]
  apply forall_congr'
  intro c
  rw [ne_eq, Row.readAll?_eq_some_iff]

end Reading

/-! ### Tables of some of the rows -/

theorem Row.isSome_readAll?_iff :
    (row.shape.readAll? t).isSome = true ↔ ∃ c, row.shape.Reads t c := by
  simp only [Option.isSome_iff_exists, readAll?_eq_some_iff]

/-- At most one row reads a text. So a table of any rows, in any order, makes of a phrase what the
    whole table makes of it, if the row that reads the phrase is there, and otherwise does not
    understand it. -/
theorem interpret_table (table : List Row) (text : List Char) (now : Calendar.Instant) :
    (∀ t, {row : Row | (row.shape.readAll? t).isSome = true}.Subsingleton) ∧
      interpret table text now =
        if normalize text = [] then .ok (.failed .empty)
        else if ∃ row ∈ table, (row.shape.readAll? (normalize text)).isSome = true then
          interpret Row.all text now
        else .ok (.failed .unmatched) := by
  constructor
  · intro t r hr s hs
    obtain ⟨c, hc⟩ := Row.isSome_readAll?_iff.mp hr
    obtain ⟨d, hd⟩ := Row.isSome_readAll?_iff.mp hs
    exact Row.eq_of_reads hc hd
  · by_cases hne : normalize text = []
    · simp only [interpret, hne, if_true]
    · simp only [interpret, if_neg hne]
      by_cases h : ∃ row ∈ table, (row.shape.readAll? (normalize text)).isSome = true
      · rw [if_pos h]
        obtain ⟨row, hrow, hc⟩ := h
        obtain ⟨c, hc⟩ := Row.isSome_readAll?_iff.mp hc
        rw [Reading.find?_eq_some_iff.mpr ⟨hrow, hc⟩, Reading.find?_all_eq_some_iff.mpr hc]
      · have hn : Reading.find? table (normalize text) = none := by
          rw [Reading.find?_eq_none_iff]
          intro row hrow c hc
          exact h ⟨row, hrow, Row.isSome_readAll?_iff.mpr ⟨c, hc⟩⟩
        rw [if_neg h, hn]

end Almanac.Phrase
