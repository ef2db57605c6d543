import Almanac.Text.Numeral
import Mathlib.Algebra.Order.Ring.Nat

/-!
# Reading numbers back

The digits in which a number is written are decimal digits, and their value is the number. With
leading zeros this holds of the numbers that have no more digits than the width.
-/

namespace Almanac.Text

variable {c : Char} {n width : Nat}

/-! ### Digits -/

theorem digitValue?_digitChar (h : n < 10) : digitValue? (digitChar n) = some n := by
  have hall : ∀ m < 10, digitValue? (digitChar m) = some m := by decide +kernel
  exact hall n h

theorem isDigit_digitChar (h : n < 10) : isDigit (digitChar n) = true := by
  simp [isDigit, digitValue?_digitChar h]

theorem digitsValue_concat_digitChar (ds : List Char) (h : n < 10) :
    digitsValue (ds ++ [digitChar n]) = 10 * digitsValue ds + n := by
  simp [digitsValue_concat, digitValue?_digitChar h]

/-- Whether a text is made of the digits that numbers are written in. -/
def IsDecimal (t : List Char) : Prop :=
  ∀ c ∈ t, ∃ d < 10, c = digitChar d

theorem IsDecimal.isDigit {t : List Char} (h : IsDecimal t) (hc : c ∈ t) : isDigit c = true := by
  obtain ⟨d, hd, rfl⟩ := h c hc
  exact isDigit_digitChar hd

/-! ### Numbers -/

theorem isDecimal_decimal (n : Nat) : IsDecimal (decimal n) := by
  intro c h
  induction n using decimal.induct with
  | case1 n hn =>
    rw [decimal_of_lt hn, List.mem_singleton] at h
    exact ⟨n, hn, h⟩
  | case2 n hn ih =>
    rw [decimal_of_le (Nat.le_of_not_lt hn), List.mem_append, List.mem_singleton] at h
    rcases h with h | h
    · exact ih h
    · exact ⟨n % 10, Nat.mod_lt n (by decide), h⟩

theorem isDecimal_zeroPadded (width n : Nat) : IsDecimal (zeroPadded width n) := by
  intro c h
  induction width generalizing n with
  | zero => cases h
  | succ width ih =>
    rw [zeroPadded, List.mem_append, List.mem_singleton] at h
    rcases h with h | h
    · exact ih _ h
    · exact ⟨n % 10, Nat.mod_lt n (by decide), h⟩

/-- A number is the value of its digits. -/
theorem digitsValue_decimal (n : Nat) : digitsValue (decimal n) = n := by
  induction n using decimal.induct with
  | case1 n hn =>
    rw [decimal_of_lt hn]
    exact (digitsValue_concat_digitChar [] hn).trans (by simp)
  | case2 n hn ih =>
    have hd : n % 10 < 10 := Nat.mod_lt n (by decide)
    rw [decimal_of_le (Nat.le_of_not_lt hn), digitsValue_concat_digitChar _ hd, ih,
      Nat.div_add_mod]

theorem digitsValue_zeroPadded (h : n < 10 ^ width) : digitsValue (zeroPadded width n) = n := by
  induction width generalizing n with
  | zero =>
    rw [Nat.lt_one_iff.mp h]
    rfl
  | succ width ih =>
    have hn : n / 10 < 10 ^ width := by
      rw [Nat.div_lt_iff_lt_mul (by decide), ← pow_succ]
      exact h
    rw [zeroPadded, digitsValue_concat_digitChar _ (Nat.mod_lt n (by decide)), ih hn,
      Nat.div_add_mod]

theorem length_decimal_pos (n : Nat) : 1 ≤ (decimal n).length := by
  by_cases hn : n < 10
  · simp [decimal_of_lt hn]
  · simp [decimal_of_le (Nat.le_of_not_lt hn)]

/-- A number has no more digits than a width exactly if it is below that power of ten. -/
theorem length_decimal_le_iff : (decimal n).length ≤ width + 1 ↔ n < 10 ^ (width + 1) := by
  induction width generalizing n with
  | zero =>
    by_cases hn : n < 10
    · simp [decimal_of_lt hn, hn]
    · have hpos := length_decimal_pos (n / 10)
      rw [decimal_of_le (Nat.le_of_not_lt hn), List.length_append, List.length_singleton]
      omega
  | succ width ih =>
    by_cases hn : n < 10
    · have hlt : n < 10 ^ (width + 1 + 1) := hn.trans_le (Nat.le_self_pow (by omega) 10)
      simp [decimal_of_lt hn, hlt]
    · have hdiv : n / 10 < 10 ^ (width + 1) ↔ n < 10 ^ (width + 1 + 1) := by
        rw [Nat.div_lt_iff_lt_mul (by decide), ← pow_succ]
      rw [decimal_of_le (Nat.le_of_not_lt hn), List.length_append, List.length_singleton, ← hdiv,
        ← ih]
      omega

end Almanac.Text
