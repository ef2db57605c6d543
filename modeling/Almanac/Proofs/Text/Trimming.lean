import Almanac.Proofs.Text.Words
import Mathlib.Data.List.DropRight

/-!
# What trimming leaves

Trimming takes characters of one kind off both ends of a text. What is left neither begins nor ends
with such a character, and there is only one part of the text of which this is so and around which
nothing else stands.
-/

namespace Almanac.Text

variable {drop : Char → Bool} {s t : List Char}

/-- Whether a text is what is left of another when certain characters are taken off both its ends. -/
structure Trims (drop : Char → Bool) (s t : List Char) : Prop where
  exists_ends : ∃ l r, s = l ++ t ++ r ∧ (∀ c ∈ l, drop c = true) ∧ ∀ c ∈ r, drop c = true
  head : ∀ c ∈ t.head?, drop c = false
  getLast : ∀ c ∈ t.getLast?, drop c = false

theorem trimEnd_eq_rdropWhile (drop : Char → Bool) (t : List Char) :
    trimEnd drop t = t.rdropWhile drop := by
  induction t using List.reverseRecOn with
  | nil => rfl
  | append_singleton t c ih =>
    cases hc : drop c with
    | true =>
      rw [List.rdropWhile_concat_pos _ _ _ hc, ← ih, trimEnd_append]
      simpa using hc
    | false => rw [trimEnd_concat t hc, List.rdropWhile_concat_neg _ _ _ (by simp [hc])]

theorem trims_trimEnd (drop : Char → Bool) (s : List Char) :
    Trims drop s (trimEnd drop (s.dropWhile drop)) := by
  have hsplit : s.dropWhile drop =
      trimEnd drop (s.dropWhile drop) ++ (s.dropWhile drop).rtakeWhile drop := by
    rw [trimEnd_eq_rdropWhile, List.rdropWhile_append_rtakeWhile]
  refine ⟨⟨s.takeWhile drop, (s.dropWhile drop).rtakeWhile drop, ?_, ?_, ?_⟩, ?_, ?_⟩
  · rw [List.append_assoc, ← hsplit, List.takeWhile_append_dropWhile]
  · exact fun c hc => List.mem_takeWhile_imp hc
  · exact fun c hc => List.mem_rtakeWhile_imp hc
  · intro c hc
    -- the first character that is left is the first one that is not dropped in front
    obtain ⟨r, hr⟩ := trimEnd_isPrefix drop (s.dropWhile drop)
    have hhead : (s.dropWhile drop).head? = some c := by
      rw [← hr, List.head?_append, Option.mem_def.mp hc]
      rfl
    have hnot := List.head?_dropWhile_not drop s
    rw [hhead] at hnot
    exact hnot
  · intro c hc
    rw [trimEnd_eq_rdropWhile] at hc
    obtain ⟨u, hu⟩ := List.getLast?_eq_some_iff.mp hc
    have hne : (s.dropWhile drop).rdropWhile drop ≠ [] := by simp [hu]
    have hlast := List.rdropWhile_last_not drop (s.dropWhile drop) hne
    simpa [hu] using hlast

/-- What trimming leaves is determined by what stands around it and by its ends. -/
theorem trimEnd_dropWhile_eq_iff : trimEnd drop (s.dropWhile drop) = t ↔ Trims drop s t := by
  constructor
  · rintro rfl
    exact trims_trimEnd drop s
  · rintro ⟨⟨l, r, rfl, hl, hr⟩, hhead, hlast⟩
    rw [List.append_assoc, List.dropWhile_append_of_pos hl]
    cases t with
    | nil => rw [List.nil_append, List.dropWhile_eq_nil_iff.mpr hr, trimEnd_nil]
    | cons c t =>
      have hc : drop c = false := hhead c rfl
      rw [List.cons_append, List.dropWhile_cons_of_neg (by simp [hc]), ← List.cons_append,
        trimEnd_append _ hr, trimEnd_of_getLast? hlast]

theorem trim_eq_iff : trim s = t ↔ Trims isBlank s t :=
  trimEnd_dropWhile_eq_iff

/-- Nothing is left exactly if everything can be dropped. -/
theorem trims_nil_iff : Trims drop s [] ↔ ∀ c ∈ s, drop c = true := by
  constructor
  · rintro ⟨⟨l, r, rfl, hl, hr⟩, -, -⟩ c hc
    rw [List.append_nil, List.mem_append] at hc
    exact hc.elim (hl c) (hr c)
  · intro h
    exact ⟨⟨s, [], by simp, h, by simp⟩, by simp, by simp⟩

end Almanac.Text
