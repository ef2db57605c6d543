import Almanac.Phrase.Shape
import Almanac.Proofs.Phrase.NormalForm
import Almanac.Proofs.Text.Digit
import Almanac.Proofs.Text.Numeral
import Almanac.Proofs.Text.Words

/-!
# Plain texts

A text of plain words, set apart by single spaces, is in normal form but for its capitals. Numbers
are such words, and have no capitals. Shapes read the single spaces between them.
-/

namespace Almanac.Phrase

open Text Shape

variable {x : Char} {t v : List Char} {ws : List (List Char)}

/-! ### Plain words -/

/-- Whether a character is a mark, a digit or a letter of ASCII, and does not end a sentence. -/
def isPlain (x : Char) : Bool :=
  33 ≤ x.toNat && x.toNat ≤ 126 && !isEndMark x

/-- Whether a text is a word of such characters. -/
def IsPlainWord (w : List Char) : Prop :=
  w ≠ [] ∧ w.all isPlain = true

instance (w : List Char) : Decidable (IsPlainWord w) := inferInstanceAs (Decidable (_ ∧ _))

theorem IsPlainWord.append_cons (hv : IsPlainWord v) (hx : isPlain x = true)
    (ht : IsPlainWord t) : IsPlainWord (v ++ x :: t) := by
  refine ⟨by simp, ?_⟩
  rw [List.all_append, List.all_cons, hv.2, hx, ht.2]
  rfl

theorem IsPlainWord.isPlain {w : List Char} (h : IsPlainWord w) (hx : x ∈ w) : isPlain x = true :=
  List.all_eq_true.mp h.2 x hx

theorem toNat_lt_of_isPlain (h : isPlain x = true) : x.toNat < 127 := by
  simp only [isPlain, Bool.and_eq_true, decide_eq_true_eq] at h
  omega

/-- Whether a character is lowered by itself, and then neither is blank nor ends a sentence. -/
structure IsInner (x : Char) : Prop where
  single  : x ≠ 'İ' ∧ x ≠ 'Σ'
  blank   : isBlank (lowerChar x) = false
  endMark : isEndMark (lowerChar x) = false

theorem isInner_of_isPlain (h : isPlain x = true) : IsInner x := by
  have hall : ∀ n < 127, isPlain (Char.ofNat n) = true →
      let y := if 65 ≤ n ∧ n ≤ 90 then Char.ofNat (n + 32) else Char.ofNat n
      isBlank y = false ∧ isEndMark y = false := by
    decide +kernel
  have hlt := toNat_lt_of_isPlain h
  have hx := hall x.toNat hlt
  rw [Char.ofNat_toNat] at hx
  obtain ⟨hblank, hend⟩ := hx h
  rw [← lowerChar_of_toNat_lt (Nat.lt_succ_of_lt hlt)] at hblank hend
  exact ⟨ne_of_toNat_lt (Nat.lt_succ_of_lt hlt), hblank, hend⟩

/-- The normal form of words of such characters, set apart by single spaces, is their lower case. -/
theorem normalize_spaced_of_isInner (h : ∀ w ∈ ws, w ≠ [] ∧ ∀ x ∈ w, IsInner x) :
    normalize (spaced ws) = (spaced ws).map lowerChar := by
  have hne : ∀ w ∈ ws, w ≠ [] := fun w hw => (h w hw).1
  have hsingle : ∀ x ∈ spaced ws, x ≠ 'İ' ∧ x ≠ 'Σ' := by
    intro x hx
    rcases mem_spaced hx with rfl | ⟨w, hw, hxw⟩
    · decide
    · exact ((h w hw).2 x hxw).single
  have hwords : words (spaced (ws.map (·.map lowerChar))) = ws.map (·.map lowerChar) := by
    apply words_spaced
    intro v hv
    obtain ⟨w, hw, rfl⟩ := List.mem_map.mp hv
    refine ⟨by simpa using hne w hw, ?_⟩
    intro y hy
    obtain ⟨x, hx, rfl⟩ := List.mem_map.mp hy
    exact ((h w hw).2 x hx).blank
  have hfirst : ∀ y ∈ ((spaced ws).map lowerChar).head?, isBlank y = false := by
    intro y hy
    rw [List.head?_map] at hy
    obtain ⟨x, hx, rfl⟩ := Option.map_eq_some_iff.mp hy
    obtain ⟨w, hw, hxw⟩ := exists_mem_of_head?_spaced hne hx
    exact ((h w hw).2 x hxw).blank
  have hlast : ∀ y ∈ ((spaced ws).map lowerChar).getLast?,
      isBlank y = false ∧ isEndMark y = false := by
    intro y hy
    rw [List.getLast?_map] at hy
    obtain ⟨x, hx, rfl⟩ := Option.map_eq_some_iff.mp hy
    obtain ⟨w, hw, hxw⟩ := exists_mem_of_getLast?_spaced hne hx
    have hin := (h w hw).2 x hxw
    exact ⟨hin.blank, hin.endMark⟩
  have hspaced := map_spaced lowerChar lowerChar_space ws
  rw [normalize, lower, lowerFrom_of_forall_ne hsingle, hspaced, hwords, ← hspaced,
    trimEnd_of_getLast? fun y hy => (hlast y hy).2,
    trim_of_ends hfirst fun y hy => (hlast y hy).1]

/-- The normal form of plain words set apart by single spaces is their lower case. -/
theorem normalize_spaced (h : ∀ w ∈ ws, IsPlainWord w) :
    normalize (spaced ws) = (spaced ws).map lowerChar := by
  apply normalize_spaced_of_isInner
  intro w hw
  have hplain := h w hw
  exact ⟨hplain.1, fun x hx => isInner_of_isPlain (hplain.isPlain hx)⟩

/-- Whether a text is plain words without capitals, set apart by single spaces. -/
def IsPlainText (t : List Char) : Prop :=
  t = spaced (words t) ∧ (∀ w ∈ words t, IsPlainWord w) ∧ t.all (!·.isUpper) = true

instance (t : List Char) : Decidable (IsPlainText t) := inferInstanceAs (Decidable (_ ∧ _))

theorem IsPlainText.toNat_lt (h : IsPlainText t) (hx : x ∈ t) : x.toNat < 128 := by
  obtain ⟨hspaced, hplain, -⟩ := h
  rw [hspaced] at hx
  rcases mem_spaced hx with rfl | ⟨w, hw, hxw⟩
  · decide
  · exact Nat.lt_succ_of_lt (toNat_lt_of_isPlain ((hplain w hw).isPlain hxw))

/-- Such a text is its own normal form. -/
theorem IsPlainText.normalize_eq (h : IsPlainText t) : normalize t = t := by
  have hlower : ∀ x ∈ t, lowerChar x = x := by
    intro x hx
    have hsmall := List.all_eq_true.mp h.2.2 x hx
    rw [lowerChar_of_toNat_lt (h.toNat_lt hx), if_neg]
    rintro ⟨h₁, h₂⟩
    have hupper : x.isUpper = true :=
      decide_eq_true ⟨UInt32.le_iff_toNat_le.mpr h₁, UInt32.le_iff_toNat_le.mpr h₂⟩
    rw [hupper] at hsmall
    cases hsmall
  obtain ⟨hspaced, hplain, -⟩ := h
  rw [hspaced, normalize_spaced hplain, ← hspaced]
  exact (List.map_congr_left hlower).trans (List.map_id' t)

/-! ### Numbers -/

theorem isInner_of_isDigit (h : isDigit x = true) : IsInner x := by
  have hgap := not_mem_gap_of_isDigit h
  have hne {y : Char} (hy : y.toNat ≤ 47 ∨ 58 ≤ y.toNat ∧ y.toNat ≤ 0x65F) : x ≠ y := by
    rintro rfl
    omega
  constructor
  · exact ⟨hne (by decide), hne (by decide)⟩
  · rw [lowerChar_of_isDigit h]
    exact isBlank_of_isDigit h
  · rw [lowerChar_of_isDigit h, isEndMark]
    simp [hne (y := '.') (by decide), hne (y := '!') (by decide), hne (y := '?') (by decide)]

theorem map_lowerChar_of_isDigit (h : ∀ x ∈ t, isDigit x = true) : t.map lowerChar = t := by
  refine (List.map_congr_left ?_).trans (List.map_id' t)
  intro x hx
  exact lowerChar_of_isDigit (h x hx)

theorem isPlain_digitChar {d : Nat} (h : d < 10) : isPlain (digitChar d) = true := by
  have hall : ∀ m < 10, isPlain (digitChar m) = true := by decide +kernel
  exact hall d h

theorem isPlainWord_of_isDecimal (h : IsDecimal t) (hl : 1 ≤ t.length) : IsPlainWord t := by
  refine ⟨List.ne_nil_of_length_pos hl, List.all_eq_true.mpr ?_⟩
  intro x hx
  obtain ⟨d, hd, rfl⟩ := h x hx
  exact isPlain_digitChar hd

theorem isPlainWord_decimal (n : Nat) : IsPlainWord (decimal n) :=
  isPlainWord_of_isDecimal (isDecimal_decimal n) (length_decimal_pos n)

theorem isPlainWord_zeroPadded (width n : Nat) : IsPlainWord (zeroPadded (width + 1) n) :=
  isPlainWord_of_isDecimal (isDecimal_zeroPadded (width + 1) n) (by simp)

@[simp] theorem map_lowerChar_decimal (n : Nat) : (decimal n).map lowerChar = decimal n :=
  map_lowerChar_of_isDigit fun _ => (isDecimal_decimal n).isDigit

@[simp] theorem map_lowerChar_zeroPadded (width n : Nat) :
    (zeroPadded width n).map lowerChar = zeroPadded width n :=
  map_lowerChar_of_isDigit fun _ => (isDecimal_zeroPadded width n).isDigit

/-! ### Spaces -/

theorem isBlank_of_mem_singleton (hx : x ∈ [' ']) : isBlank x = true := by
  rw [List.mem_singleton.mp hx]
  rfl

theorem reads_gap : gap.Reads [' '] [] :=
  .gap (by simp) fun _ hx => isBlank_of_mem_singleton hx

theorem reads_space : space.Reads [' '] [] :=
  .space fun _ hx => isBlank_of_mem_singleton hx

end Almanac.Phrase
