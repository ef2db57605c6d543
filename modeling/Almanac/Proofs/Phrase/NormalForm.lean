import Almanac.Phrase.Normal
import Almanac.Proofs.Text.LowerCase
import Almanac.Proofs.Text.Words

/-!
# Characters of normal forms

The characters of a normal form are those of the lower case of the text, and spaces. So it has none of
the capitals that stand for small letters in words, and strays only if the text is not in ASCII.
-/

namespace Almanac.Phrase

open Text

variable {x : Char} {t : List Char}

/-- A character of a normal form is a space, or one of the lower case of the text. -/
theorem mem_normalize (h : x ∈ normalize t) : x = ' ' ∨ x ∈ lower t := by
  have hs : x ∈ spaced (words (lower t)) :=
    (trimEnd_isPrefix isEndMark _).subset ((trim_isInfix _).subset h)
  rcases mem_spaced hs with h | ⟨w, hw, hx⟩
  · exact .inl h
  · exact .inr (subset_of_mem_words hw hx)

/-- A normal form is made of small letters. -/
theorem isSmall_of_mem_normalize (h : x ∈ normalize t) : IsSmall x := by
  rcases mem_normalize h with rfl | h
  · exact isSmall_of_toNat (by decide) (by decide) (by decide)
  · exact isSmall_of_mem_lowerFrom h

/-- The normal form of an ASCII text has no strays. -/
theorem not_isStray_of_mem_normalize (ht : ∀ c ∈ t, c.toNat < 128) (h : x ∈ normalize t) :
    ¬IsStray x := by
  rcases mem_normalize h with rfl | h
  · exact not_isStray_of_toNat_lt (by decide)
  · exact not_isStray_of_toNat_lt (toNat_lt_of_mem_lowerFrom ht h)

end Almanac.Phrase
