import Almanac.Text.Blank
import Almanac.Text.Digit
import Almanac.Text.LowerCase

/-!
# Digits of any script

Decimal digits are found in runs of ten among the characters. None of them is a blank or a capital
letter, so lower case keeps them.
-/

namespace Almanac.Text

variable {x : Char} {first last : Nat}

/-- Whether no digit is among the characters from one number to another. -/
def isDigitless (first last : Nat) : Bool :=
  digitZeros.all fun z => last.blt z || (z + 10).ble first

theorem not_isDigit_of_isDigitless (h : isDigitless first last = true) (h₁ : first ≤ x.toNat)
    (h₂ : x.toNat ≤ last) : ¬isDigit x = true := by
  intro hx
  obtain ⟨n, hn⟩ := Option.isSome_iff_exists.mp hx
  obtain ⟨z, hz, -⟩ := Option.map_eq_some_iff.mp hn
  have hrun := List.all_eq_true.mp h z (List.mem_of_find?_eq_some hz)
  have hin := List.find?_some hz
  rw [Bool.or_eq_true, Nat.blt_eq, Nat.ble_eq] at hrun
  rw [Bool.and_eq_true, decide_eq_true_eq, decide_eq_true_eq] at hin
  omega

/-- The digits of the first scripts leave gaps in which the blanks and the marks stand. -/
theorem not_mem_gap_of_isDigit (h : isDigit x = true) :
    47 < x.toNat ∧ ¬(58 ≤ x.toNat ∧ x.toNat ≤ 0x65F) ∧ ¬(0x109A ≤ x.toNat ∧ x.toNat ≤ 0x17DF) ∧
      ¬(0x1C5A ≤ x.toNat ∧ x.toNat ≤ 0xA61F) := by
  refine ⟨?_, ?_, ?_, ?_⟩
  · apply Nat.lt_of_not_le
    intro hle
    exact not_isDigit_of_isDigitless (by decide) (Nat.zero_le _) hle h
  · rintro ⟨h₁, h₂⟩
    exact not_isDigit_of_isDigitless (by decide) h₁ h₂ h
  · rintro ⟨h₁, h₂⟩
    exact not_isDigit_of_isDigitless (by decide) h₁ h₂ h
  · rintro ⟨h₁, h₂⟩
    exact not_isDigit_of_isDigitless (by decide) h₁ h₂ h

theorem isBlank_of_isDigit (h : isDigit x = true) : isBlank x = false := by
  have hgap := not_mem_gap_of_isDigit h
  simp only [isBlank, Bool.or_eq_false_iff, Bool.and_eq_false_iff, beq_eq_false_iff_ne,
    decide_eq_false_iff_not]
  omega

/-- Digits are no letters. -/
theorem lowerChar_of_isDigit (h : isDigit x = true) : lowerChar x = x := by
  have hall : caseSpans.all (fun s => isDigitless s.first s.last) = true := by decide +kernel
  rw [lowerChar]
  split
  · next s hs =>
    have hcov := List.find?_some hs
    simp only [CaseSpan.covers, Bool.and_eq_true, decide_eq_true_eq] at hcov
    have hspan := List.all_eq_true.mp hall s (List.mem_of_find?_eq_some hs)
    exact absurd h (not_isDigit_of_isDigitless hspan hcov.1.1 hcov.1.2)
  · rfl

end Almanac.Text
