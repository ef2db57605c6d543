import Almanac.Json.Reader
import Almanac.Json.Writer
import Almanac.Proofs.Text.CodePoint
import Almanac.Proofs.Text.Numeral

/-!
# Strings and whole numbers in JSON

A string is read as it was written, whatever characters it holds: each is escaped to its code
units or stands for itself. So is a whole number where a value ends, unless it has more digits than
a numeral may have.
-/

namespace Almanac.Json

open Text

variable {c d : Char} {e : CodePoint} {n u : Nat} {us : List Nat} {ds : List Char}
  {opening r t : List CodePoint}

/-! ### Characters of a string -/

theorem hexValue?_hexDigit (n : Nat) : hexValue? (.char (hexDigit (n % 16))) = some (n % 16) := by
  have hall : ∀ m < 16, hexValue? (.char (hexDigit m)) = some m := by decide
  exact hall (n % 16) (Nat.mod_lt n (by decide))

theorem stringUnits_quote : stringUnits opening (.char '"' :: t) = .ok (some [], t) := by
  rw [stringUnits.eq_def]
  rfl

theorem stringUnits_plain (hc : 32 ≤ c.toNat) (hquote : c ≠ '"') (hslash : c ≠ '\\')
    (h : stringUnits opening t = .ok (some us, r)) :
    stringUnits opening (.char c :: t) = .ok (some (c.toNat :: us), r) := by
  rw [stringUnits.eq_def]
  simp [hquote, hslash, Nat.not_lt.mpr hc, h, Except.map, unitBefore]

theorem stringUnits_letter (he : escaped? e = some d)
    (h : stringUnits opening t = .ok (some us, r)) :
    stringUnits opening (.char '\\' :: e :: t) = .ok (some (d.toNat :: us), r) := by
  have hu : e ≠ .char 'u' := by
    rintro rfl
    cases he
  rw [stringUnits.eq_def]
  simp [hu, he, h, Except.map, unitBefore]

theorem stringUnits_hex (hu : u < 0x10000) (h : stringUnits opening t = .ok (some us, r)) :
    stringUnits opening (pointsOf ('\\' :: 'u' :: hex 4 u) ++ t) = .ok (some (u :: us), r) := by
  -- An escape by number is read only where something follows it.
  cases t with
  | nil => cases h
  | cons x t =>
    have hv : hexValue4? (.char (hexDigit (u / 16 / 16 / 16 % 16)))
        (.char (hexDigit (u / 16 / 16 % 16))) (.char (hexDigit (u / 16 % 16)))
        (.char (hexDigit (u % 16))) = some u := by
      simp only [hexValue4?, hexValue?_hexDigit, Option.bind_eq_bind, Option.bind_some,
        Option.some.injEq]
      omega
    rw [stringUnits.eq_def]
    simp [hex, hv, h, Except.map, unitBefore]

/-- What is written for a character is read as its code units. -/
theorem stringUnits_charText (c : Char) (h : stringUnits opening t = .ok (some us, r)) :
    stringUnits opening (pointsOf (charText c) ++ t) = .ok (some (unitsOf c ++ us), r) := by
  unfold charText
  split
  case h_8 hquote hslash _ _ _ _ _ =>
    split
    · next hplain =>
      have hlow : c.toNat < 0x10000 := by omega
      rw [unitsOf, if_pos hlow]
      exact stringUnits_plain hplain.1 hquote hslash h
    · rw [unitsOf]
      split
      · next hlow =>
        rw [List.flatMap_singleton]
        exact stringUnits_hex hlow h
      · have hc := toNat_cases c
        rw [List.flatMap_cons, List.flatMap_singleton, pointsOf_append, List.append_assoc]
        apply stringUnits_hex (by omega)
        exact stringUnits_hex (by omega) h
  all_goals exact stringUnits_letter rfl h

theorem isGraphic_hex (width n : Nat) : IsGraphic (hex width n) := by
  induction width generalizing n with
  | zero => exact List.forall_mem_nil _
  | succ width ih =>
    have hall : ∀ m < 16, 32 ≤ (hexDigit m).toNat ∧ (hexDigit m).toNat < 127 := by decide
    exact (ih _).append (List.forall_mem_singleton.mpr (hall _ (Nat.mod_lt n (by decide))))

theorem isGraphic_charText (c : Char) : IsGraphic (charText c) := by
  unfold charText
  split
  case h_8 =>
    split
    · next hplain => exact List.forall_mem_singleton.mpr ⟨hplain.1, Nat.lt_succ_of_le hplain.2⟩
    · intro d hd
      obtain ⟨u, -, hd⟩ := List.mem_flatMap.mp hd
      exact ((isGraphic_hex 4 u).cons (by decide)).cons (by decide) d hd
  all_goals exact by decide

/-! ### Strings -/

theorem stringUnits_flatMap_charText (s : List Char) (opening r : List CodePoint) :
    stringUnits opening (pointsOf (s.flatMap charText) ++ .char '"' :: r) =
      .ok (some (s.flatMap unitsOf), r) := by
  induction s with
  | nil => exact stringUnits_quote
  | cons c s ih =>
    rw [List.flatMap_cons, List.flatMap_cons, pointsOf_append, List.append_assoc]
    exact stringUnits_charText c ih

/-- A string is read as it was written. -/
theorem string?_stringText (s : String) (r : List CodePoint) :
    ∃ t, pointsOf (stringText s) ++ r = .char '"' :: t ∧ string? t = .ok (some s, r) := by
  refine ⟨pointsOf (s.toList.flatMap charText) ++ .char '"' :: r, by simp [stringText], ?_⟩
  rw [string?, stringUnits_flatMap_charText]
  simp only [Except.map, Option.bind_some, joinUnits?_flatMap_unitsOf, Option.map_some,
    String.ofList_toList]

theorem isGraphic_stringText (s : String) : IsGraphic (stringText s) := by
  have hs : IsGraphic (s.toList.flatMap charText) := by
    intro d hd
    obtain ⟨c, -, hd⟩ := List.mem_flatMap.mp hd
    exact isGraphic_charText c d hd
  exact (hs.cons (by decide)).append (by decide)

/-! ### Digits -/

/-- Whether a text goes on as after a value: it is at its end, or the next item or the end of an
    array or object follows. -/
def IsPastValue (r : List CodePoint) : Prop :=
  ∀ x ∈ r.head?, x = .char ',' ∨ x = .char ']' ∨ x = .char '}'

theorem isNumberDigit_digitChar (h : n < 10) : isNumberDigit (digitChar n) = true := by
  have hall : ∀ m < 10, isNumberDigit (digitChar m) = true := by decide
  exact hall n h

theorem IsPastValue.leadingDigits (hr : IsPastValue r) : leadingDigits r = ([], r) := by
  cases r with
  | nil => rfl
  | cons x r => obtain rfl | rfl | rfl := hr x rfl <;> rfl

theorem IsPastValue.fractionPart (hr : IsPastValue r) : fractionPart r = ([], r) := by
  cases r with
  | nil => rfl
  | cons x r => obtain rfl | rfl | rfl := hr x rfl <;> rfl

theorem IsPastValue.exponentPart (hr : IsPastValue r) : exponentPart r = (none, r) := by
  cases r with
  | nil => rfl
  | cons x r =>
    obtain rfl | rfl | rfl := hr x rfl <;> unfold Json.exponentPart <;> dsimp only <;> split <;> rfl

theorem leadingDigits_append (hds : IsDecimal ds) (hr : leadingDigits r = ([], r)) :
    leadingDigits (pointsOf ds ++ r) = (ds, r) := by
  induction ds with
  | nil => exact hr
  | cons c ds ih =>
    obtain ⟨d, hd, rfl⟩ := hds c (List.mem_cons_self ..)
    have ih := ih fun x hx => hds x (List.mem_cons_of_mem _ hx)
    rw [pointsOf_cons, List.cons_append, leadingDigits, if_pos (isNumberDigit_digitChar hd), ih]

/-- Only zero starts with the digit zero. -/
theorem head_decimal_ne (hn : n ≠ 0) : (decimal n).head? ≠ some '0' := by
  induction n using decimal.induct with
  | case1 n h =>
    have hall : ∀ m < 10, m ≠ 0 → digitChar m ≠ '0' := by decide
    simpa [decimal_of_lt h] using hall n h hn
  | case2 n h ih =>
    have hne := ih (by omega)
    have hpos := length_decimal_pos (n / 10)
    rw [decimal_of_le (Nat.le_of_not_lt h)]
    cases hd : decimal (n / 10) with
    | nil => simp [hd] at hpos
    | cons c t => simpa [hd] using hne

theorem wholePart_decimal (n : Nat) (hr : IsPastValue r) :
    wholePart (pointsOf (decimal n) ++ r) = (decimal n, r) := by
  by_cases hn : n = 0
  · subst hn
    rw [decimal_of_lt (by decide)]
    rfl
  · rw [← leadingDigits_append (isDecimal_decimal n) hr.leadingDigits]
    have hne := head_decimal_ne hn
    have hpos := length_decimal_pos n
    cases hd : decimal n with
    | nil => simp [hd] at hpos
    | cons c t =>
      have hc : c ≠ '0' := by simpa [hd] using hne
      unfold wholePart
      split
      · next h => simp_all
      · rfl

/-! ### Whole numbers -/

theorem number_of_readDigits {res : Except NumeralError Nat} (n : Int) (hr : IsPastValue r)
    (hres : readDigits (decimal n.natAbs) = res) :
    number (pointsOf (intText n) ++ r) =
      (res.mapError fun _ => .longNumeral).map fun m =>
        (.int (if n < 0 then -(m : Int) else m), r) := by
  obtain ⟨c, t, hct⟩ := List.exists_cons_of_length_pos (length_decimal_pos n.natAbs)
  have hw := wholePart_decimal n.natAbs hr
  have hc : c ≠ '-' := by
    obtain ⟨d, hd, rfl⟩ := isDecimal_decimal n.natAbs c (by simp [hct])
    have hall : ∀ m < 10, digitChar m ≠ '-' := by decide
    exact hall d hd
  rw [hct] at hw hres
  unfold number intText
  by_cases hn : n < 0
  · simp only [if_pos hn, hct, pointsOf_cons, List.cons_append] at hw ⊢
    cases res <;> simp [hw, hr.fractionPart, hr.exponentPart, hres, Except.map, Except.mapError]
  · simp only [if_neg hn, hct, pointsOf_cons, List.cons_append] at hw ⊢
    cases res <;>
      simp [hc, hw, hr.fractionPart, hr.exponentPart, hres, Except.map, Except.mapError]

/-- A whole number is read as it was written, unless it has too many digits. -/
theorem number_intText (n : Int) (hr : IsPastValue r) :
    number (pointsOf (intText n) ++ r) =
      if maxDigits < (decimal n.natAbs).length then .error .longNumeral else .ok (.int n, r) := by
  have hvalue : (if n < 0 then -(n.natAbs : Int) else n.natAbs) = n := by omega
  by_cases hlong : maxDigits < (decimal n.natAbs).length
  · rw [if_pos hlong, number_of_readDigits n hr (if_pos hlong)]
    rfl
  · have hread : readDigits (decimal n.natAbs) = .ok n.natAbs := by
      rw [readDigits, if_neg hlong, digitsValue_decimal]
    rw [if_neg hlong, number_of_readDigits n hr hread]
    exact congrArg (fun m => Except.ok (Json.int m, r)) hvalue

end Almanac.Json
