import Almanac.Proofs.Text.LowerCase

/-!
# The case of letters of ASCII

The lower case of a text does not depend on the case of its letters of ASCII: a capital has the same
lower case as its small letter, and both are cased, so that a sigma beside them ends its word or does
not.
-/

namespace Almanac.Text

variable {c : Char} {t u : List Char}

/-! ### Letters -/

/-- The ranges of the letters of ASCII. -/
def letterRanges : List (Nat × Nat) :=
  [(0x41, 0x5A), (0x61, 0x7A)]

theorem toNat_toLower (h : 65 ≤ c.toNat ∧ c.toNat ≤ 90) : c.toLower.toNat = c.toNat + 32 := by
  have hsum : (c.val + ('a'.val - 'A'.val)).toNat = (c.toNat + 32) % 2 ^ 32 :=
    UInt32.toNat_add c.val 32
  rw [Nat.mod_eq_of_lt (by omega)] at hsum
  have hlower : c.toLower = ⟨c.val + ('a'.val - 'A'.val), _⟩ :=
    dif_pos (show c.val ≥ 'A'.val ∧ c.val ≤ 'Z'.val from h)
  rw [hlower]
  exact hsum

/-- A character is kept, or is a letter with its small letter for its lower case. -/
theorem toLower_cases (c : Char) :
    c.toLower = c ∨ inRanges letterRanges c = true ∧ inRanges letterRanges c.toLower = true ∧
      lowerChar c = c.toLower := by
  by_cases h : 65 ≤ c.toNat ∧ c.toNat ≤ 90
  · have hsmall := toNat_toLower h
    refine .inr ⟨inRanges_iff.mpr ⟨(0x41, 0x5A), by decide, h⟩, ?_, ?_⟩
    · exact inRanges_iff.mpr ⟨(0x61, 0x7A), by decide, by dsimp only; omega⟩
    · rw [lowerChar_of_toNat_lt (by omega), if_pos h, ← hsmall, Char.ofNat_toNat]
  · exact .inl (dif_neg h)

theorem lowerChar_toLower (c : Char) : lowerChar c.toLower = lowerChar c := by
  rcases toLower_cases c with h | ⟨-, -, h⟩
  · rw [h]
  · rw [← h, lowerChar_lowerChar]

/-- A letter of ASCII is cased, and has no rule of its own. -/
theorem cased_of_letter (h : inRanges letterRanges c = true) :
    inRanges caseIgnoredRanges c = false ∧ inRanges casedRanges c = true ∧ c ≠ 'İ' ∧ c ≠ 'Σ' := by
  have hsub : ∀ r ∈ letterRanges, r ∈ casedRanges ∧ r.2 < 128 := by decide +kernel
  obtain ⟨r, hr, hc⟩ := inRanges_iff.mp h
  refine ⟨inRanges_eq_false_of_areApart (by decide +kernel) h,
    inRanges_iff.mpr ⟨r, (hsub r hr).1, hc⟩, ?_⟩
  exact ne_of_toNat_lt (Nat.lt_of_le_of_lt hc.2 (hsub r hr).2)

/-! ### Texts -/

theorem startsCased_map_toLower (t : List Char) :
    startsCased (t.map Char.toLower) = startsCased t := by
  induction t with
  | nil => rfl
  | cons c t ih =>
    rw [List.map_cons, startsCased_cons, startsCased_cons, ih]
    rcases toLower_cases c with h | ⟨hc, hl, -⟩
    · rw [h]
    · rw [(cased_of_letter hc).1, (cased_of_letter hc).2.1, (cased_of_letter hl).1,
        (cased_of_letter hl).2.1]

theorem lowerFrom_map_toLower (before t : List Char) :
    lowerFrom (before.map Char.toLower) (t.map Char.toLower) = lowerFrom before t := by
  induction t generalizing before with
  | nil => rfl
  | cons c t ih =>
    have hrest := ih (c :: before)
    rw [List.map_cons] at hrest
    rw [List.map_cons, lowerFrom_cons, lowerFrom_cons, hrest, endsWord, endsWord,
      startsCased_map_toLower, startsCased_map_toLower, lowerChar_toLower]
    rcases toLower_cases c with h | ⟨hc, hl, -⟩
    · rw [h]
    · obtain ⟨-, -, hdot, hsigma⟩ := cased_of_letter hc
      obtain ⟨-, -, hdot', hsigma'⟩ := cased_of_letter hl
      rw [if_neg hdot, if_neg hsigma, if_neg hdot', if_neg hsigma']

/-- The case of letters of ASCII makes no difference to lower case. -/
theorem lower_eq_of_map_toLower (h : t.map Char.toLower = u.map Char.toLower) :
    lower t = lower u := by
  rw [lower, lower, ← lowerFrom_map_toLower [] t, ← lowerFrom_map_toLower [] u]
  exact congrArg (lowerFrom []) h

end Almanac.Text
