import Almanac.Text.Surrogate
import Almanac.Text.Utf8

/-!
# Code points of texts

The code units of a text are joined to that text. A text of printable ASCII characters has one byte
for each, and they are decoded to it.
-/

namespace Almanac.Text

variable {c : Char} {s t : List Char}

/-! ### Texts as code points -/

/-- The code points of a text. -/
def pointsOf (t : List Char) : List CodePoint :=
  t.map .char

@[simp] theorem pointsOf_nil : pointsOf [] = [] := rfl

@[simp] theorem pointsOf_cons (c : Char) (t : List Char) :
    pointsOf (c :: t) = .char c :: pointsOf t := rfl

@[simp] theorem pointsOf_append (s t : List Char) : pointsOf (s ++ t) = pointsOf s ++ pointsOf t :=
  List.map_append

@[simp] theorem length_pointsOf (t : List Char) : (pointsOf t).length = t.length :=
  List.length_map ..


/-- No character is a surrogate. -/
theorem toNat_cases (c : Char) : c.toNat < 0xD800 ∨ 0xDFFF < c.toNat ∧ c.toNat < 0x110000 :=
  c.valid

theorem isHighSurrogate_toNat (c : Char) : isHighSurrogate c.toNat = false := by
  have hc := toNat_cases c
  simp only [isHighSurrogate, Bool.and_eq_false_iff, decide_eq_false_iff_not]
  omega

theorem ofNat_toNat (c : Char) : CodePoint.ofNat c.toNat = .char c := by
  have hlow : isLowSurrogate c.toNat = false := by
    have hc := toNat_cases c
    simp only [isLowSurrogate, Bool.and_eq_false_iff, decide_eq_false_iff_not]
    omega
  rw [CodePoint.ofNat, isHighSurrogate_toNat, hlow, Char.ofNat_toNat]
  rfl

theorem charsOf?_pointsOf (t : List Char) : charsOf? (pointsOf t) = some t := by
  induction t with
  | nil => rfl
  | cons c t ih => simp [charsOf?, ih]

/-! ### Code units -/

theorem codePoints_cons {n : Nat} (h : isHighSurrogate n = false) (us : List Nat) :
    codePoints (n :: us) = .ofNat n :: codePoints us := by
  cases us with
  | nil => rfl
  | cons m us => simp [codePoints, h]

theorem codePoints_unitsOf_append (c : Char) (us : List Nat) :
    codePoints (unitsOf c ++ us) = .char c :: codePoints us := by
  rw [unitsOf]
  split
  · rw [List.singleton_append, codePoints_cons (isHighSurrogate_toNat c), ofNat_toNat]
  · next hc =>
    have hc' := toNat_cases c
    have hpair : (isHighSurrogate (0xD800 + (c.toNat - 0x10000) / 0x400) &&
        isLowSurrogate (0xDC00 + (c.toNat - 0x10000) % 0x400)) = true := by
      simp only [isHighSurrogate, isLowSurrogate, Bool.and_eq_true, decide_eq_true_eq]
      omega
    have hjoin : 0x10000 + 0x400 * (0xD800 + (c.toNat - 0x10000) / 0x400 - 0xD800) +
        (0xDC00 + (c.toNat - 0x10000) % 0x400 - 0xDC00) = c.toNat := by
      omega
    rw [List.cons_append, List.singleton_append, codePoints, if_pos hpair, hjoin, Char.ofNat_toNat]

/-- The code units of a text make up that text. -/
theorem joinUnits?_flatMap_unitsOf (t : List Char) : joinUnits? (t.flatMap unitsOf) = some t := by
  have h : codePoints (t.flatMap unitsOf) = pointsOf t := by
    induction t with
    | nil => rfl
    | cons c t ih => rw [List.flatMap_cons, codePoints_unitsOf_append, ih, pointsOf_cons]
  rw [joinUnits?, h, charsOf?_pointsOf]

/-! ### Printable ASCII -/

/-- Whether a text is made of the printable characters of ASCII. -/
def IsGraphic (t : List Char) : Prop :=
  ∀ c ∈ t, 32 ≤ c.toNat ∧ c.toNat < 127

instance (t : List Char) : Decidable (IsGraphic t) :=
  List.decidableBAll _ t

theorem IsGraphic.cons (hc : 32 ≤ c.toNat ∧ c.toNat < 127) (h : IsGraphic t) :
    IsGraphic (c :: t) :=
  List.forall_mem_cons.mpr ⟨hc, h⟩

theorem IsGraphic.append (hs : IsGraphic s) (ht : IsGraphic t) : IsGraphic (s ++ t) :=
  List.forall_mem_append.mpr ⟨hs, ht⟩

/-- The byte of a character in ASCII. -/
def asciiByte (c : Char) : UInt8 :=
  c.toNat.toUInt8

theorem toNat_asciiByte (h : c.toNat < 127) : (asciiByte c).toNat = c.toNat := by
  rw [asciiByte, Nat.toUInt8, UInt8.toNat_ofNat']
  omega

theorem IsGraphic.byte_bounds (h : IsGraphic t) {b : UInt8} (hb : b ∈ t.map asciiByte) :
    b ≠ 0 ∧ b.toNat < 127 := by
  obtain ⟨c, hc, rfl⟩ := List.mem_map.mp hb
  have hn := toNat_asciiByte (h c hc).2
  refine ⟨fun hzero => ?_, hn ▸ (h c hc).2⟩
  have hpos := (h c hc).1
  rw [← hn, hzero] at hpos
  exact absurd hpos (by decide)

theorem utf8_of_isGraphic (h : IsGraphic t) : utf8 t = t.map asciiByte := by
  induction t with
  | nil => rfl
  | cons c t ih =>
    have hc : c.toNat < 128 := Nat.lt_succ_of_lt (h c (List.mem_cons_self ..)).2
    rw [utf8_cons, utf8Char, if_pos hc, ih fun d hd => h d (List.mem_cons_of_mem _ hd)]
    rfl

theorem decodeUtf8?_map_asciiByte (h : IsGraphic t) :
    decodeUtf8? (t.map asciiByte) = some (pointsOf t) := by
  rw [decodeUtf8?]
  induction t with
  | nil => rfl
  | cons c t ih =>
    have hc : c.toNat < 127 := (h c (List.mem_cons_self ..)).2
    have ht := ih fun d hd => h d (List.mem_cons_of_mem _ hd)
    simp only [List.map_cons, decodeFrom, if_true, toNat_asciiByte hc,
      if_pos (Nat.lt_succ_of_lt hc), ht, Option.map_some, ofNat_toNat, pointsOf_cons]

end Almanac.Text
