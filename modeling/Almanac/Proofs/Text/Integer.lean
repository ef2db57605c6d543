import Almanac.Proofs.Text.Digit
import Almanac.Proofs.Text.Numeral
import Almanac.Proofs.Text.Trimming
import Mathlib.Data.Nat.Digits.Defs

/-!
# Whole numbers as they are written

A whole number is written in margins, with an optional sign and groups of digits that single
underscores set apart. What is read is what is written so, with its value in base ten, as long as
the digits of all groups together are not too many.
-/

namespace Almanac.Text

variable {c x : Char} {t ds g m : List Char} {gs : List (List Char)} {n : Int}

/-! ### The form of a whole number -/

/-- What may stand in front of the digits of a whole number. -/
inductive Sign where
  | unsigned
  | plus
  | minus
  deriving DecidableEq, Repr

/-- A sign as it is written. -/
def Sign.text : Sign → List Char
  | .unsigned => []
  | .plus     => ['+']
  | .minus    => ['-']

/-- A number with a sign. -/
def Sign.apply : Sign → Nat → Int
  | .minus, n => -n
  | _,      n => n

/-- The value of a digit. -/
def digitOf (c : Char) : Nat :=
  (digitValue? c).getD 0

/-- Whether groups are some at least, of one digit at least. -/
structure AreGroups (gs : List (List Char)) : Prop where
  ne_nil : gs ≠ []
  isDigit : ∀ g ∈ gs, g ≠ [] ∧ ∀ c ∈ g, isDigit c = true

/-- A whole number taken apart as it is written. -/
structure IntegerText where
  front  : List Char
  sign   : Sign
  groups : List (List Char)
  back   : List Char
  isMargin_front : ∀ c ∈ front, isMargin c = true
  areGroups      : AreGroups groups
  isMargin_back  : ∀ c ∈ back, isMargin c = true

namespace IntegerText

/-- The text that is taken apart. -/
def text (p : IntegerText) : List Char :=
  p.front ++ (p.sign.text ++ ['_'].intercalate p.groups) ++ p.back

/-- The digits, without the underscores between them. -/
def digits (p : IntegerText) : List Char :=
  p.groups.flatten

/-- The number that is written: its digits count from the last one up. -/
def value (p : IntegerText) : Int :=
  p.sign.apply (Nat.ofDigits 10 (p.digits.reverse.map digitOf))

end IntegerText

/-- Whether a text writes a whole number, in no more than 4300 digits. -/
def Writes (t : List Char) (n : Int) : Prop :=
  ∃ p : IntegerText, p.text = t ∧ p.digits.length ≤ 4300 ∧ p.value = n

/-! ### Digits -/

theorem digitsValue_eq_ofDigits (ds : List Char) :
    digitsValue ds = Nat.ofDigits 10 (ds.reverse.map digitOf) := by
  induction ds using List.reverseRecOn with
  | nil => rfl
  | append_singleton ds c ih =>
    rw [digitsValue_concat, ih, List.reverse_concat, List.map_cons, Nat.ofDigits_cons, digitOf,
      Nat.add_comm]

theorem ne_of_isDigit (h : isDigit c = true) (hx : isDigit x = false) : c ≠ x := by
  rintro rfl
  exact absurd h (Bool.eq_false_iff.mp hx)

theorem isMargin_of_isDigit (h : isDigit c = true) : isMargin c = false := by
  rw [isMargin, isBlank_of_isDigit h, Bool.false_and]

/-! ### Groups -/

theorem mem_intercalate (h : x ∈ ['_'].intercalate gs) : x = '_' ∨ ∃ g ∈ gs, x ∈ g := by
  induction gs with
  | nil => cases h
  | cons g gs ih =>
    cases gs with
    | nil => exact .inr ⟨g, List.mem_singleton_self g, by simpa using h⟩
    | cons g' gs =>
      simp only [List.intercalate_cons_cons, List.mem_append, List.mem_singleton] at h
      rcases h with (h | h) | h
      · exact .inr ⟨g, List.mem_cons_self .., h⟩
      · exact .inl h
      · obtain h | ⟨u, hu, hx⟩ := ih h
        · exact .inl h
        · exact .inr ⟨u, List.mem_cons_of_mem g hu, hx⟩

theorem intercalate_cons_head (c : Char) (g : List Char) (gs : List (List Char)) :
    ['_'].intercalate ((c :: g) :: gs) = c :: ['_'].intercalate (g :: gs) := by
  cases gs <;> simp [List.intercalate_cons_cons]

/-- Digits in front of a digit belong to its group. -/
theorem ungroup_append_cons (hg : ∀ x ∈ g, isDigit x = true) (hc : isDigit c = true)
    (t : List Char) : ungroup (g ++ c :: t) = (ungroup (c :: t)).map (g ++ ·) := by
  induction g with
  | nil => simp
  | cons d g ih =>
    obtain ⟨hd, hg⟩ := List.forall_mem_cons.mp hg
    obtain ⟨x, u, hx, hu⟩ : ∃ x u, isDigit x = true ∧ g ++ c :: t = x :: u := by
      cases g with
      | nil => exact ⟨c, t, hc, rfl⟩
      | cons x g => exact ⟨x, g ++ c :: t, hg x (List.mem_cons_self ..), rfl⟩
    have hne : x ≠ '_' := ne_of_isDigit hx (by decide)
    rw [List.cons_append, hu, ungroup, if_pos hd, if_neg hne, ← hu, ih hg, Option.map_map]
    rfl

theorem ungroup_of_isDigit (hne : g ≠ []) (h : ∀ c ∈ g, isDigit c = true) :
    ungroup g = some g := by
  obtain ⟨g, c, rfl⟩ := (List.eq_nil_or_concat g).resolve_left hne
  simp only [List.concat_eq_append, List.forall_mem_append, List.forall_mem_singleton] at h ⊢
  rw [ungroup_append_cons h.1 h.2, ungroup, if_pos h.2, Option.map_some]

/-- The digits before an underscore are followed by those after it. -/
theorem ungroup_append_underscore (hne : g ≠ []) (h : ∀ c ∈ g, isDigit c = true) (t : List Char) :
    ungroup (g ++ '_' :: t) = (ungroup t).map (g ++ ·) := by
  obtain ⟨g, c, rfl⟩ := (List.eq_nil_or_concat g).resolve_left hne
  simp only [List.concat_eq_append, List.forall_mem_append, List.forall_mem_singleton,
    List.append_assoc, List.singleton_append] at h ⊢
  rw [ungroup_append_cons h.1 h.2, ungroup, if_pos h.2, if_pos rfl, Option.map_map]
  rfl

theorem ungroup_intercalate (h : AreGroups gs) : ungroup (['_'].intercalate gs) = some gs.flatten := by
  obtain ⟨hne, hdigit⟩ := h
  induction gs with
  | nil => exact absurd rfl hne
  | cons g gs ih =>
    obtain ⟨hg, hgs⟩ := List.forall_mem_cons.mp hdigit
    cases gs with
    | nil => simpa using ungroup_of_isDigit hg.1 hg.2
    | cons g' gs =>
      rw [List.intercalate_cons_cons, List.append_assoc, List.singleton_append,
        ungroup_append_underscore hg.1 hg.2, ih (List.cons_ne_nil g' gs) hgs]
      rfl

theorem exists_groups_of_ungroup (h : ungroup t = some ds) :
    ∃ gs, AreGroups gs ∧ ['_'].intercalate gs = t ∧ gs.flatten = ds := by
  fun_induction ungroup t generalizing ds with
  | case1 => cases h
  | case2 c hc =>
    obtain rfl := Option.some.inj h
    exact ⟨[[c]], ⟨by simp, by simpa using hc⟩, by simp, rfl⟩
  | case3 c hc => cases h
  | case4 c t hc ih =>
    obtain ⟨ds, hds, rfl⟩ := Option.map_eq_some_iff.mp h
    obtain ⟨gs, hgs, rfl, rfl⟩ := ih hds
    refine ⟨[c] :: gs, ⟨List.cons_ne_nil _ _, ?_⟩, ?_, rfl⟩
    · exact List.forall_mem_cons.mpr ⟨by simpa using hc, hgs.isDigit⟩
    · rw [List.intercalate_cons_of_ne_nil hgs.ne_nil]
      rfl
  | case5 c d t hc hd ih =>
    obtain ⟨ds, hds, rfl⟩ := Option.map_eq_some_iff.mp h
    obtain ⟨gs, hgs, hgst, rfl⟩ := ih hds
    -- the digit goes in front of the first group
    obtain ⟨g, gs, rfl⟩ := List.exists_cons_of_ne_nil hgs.ne_nil
    obtain ⟨hg, hrest⟩ := List.forall_mem_cons.mp hgs.isDigit
    refine ⟨(c :: g) :: gs, ⟨List.cons_ne_nil _ _, ?_⟩, ?_, rfl⟩
    · exact List.forall_mem_cons.mpr
        ⟨⟨List.cons_ne_nil c g, List.forall_mem_cons.mpr ⟨hc, hg.2⟩⟩, hrest⟩
    · rw [intercalate_cons_head, hgst]
  | case6 c d t hc => cases h

theorem readDigits_eq_ok_iff {k : Nat} :
    readDigits ds = .ok k ↔ ds.length ≤ 4300 ∧ digitsValue ds = k := by
  rw [readDigits]
  by_cases hlong : maxDigits < ds.length
  · rw [if_pos hlong]
    constructor
    · intro h
      cases h
    · intro h
      exact absurd hlong (Nat.not_lt.mpr h.1)
  · rw [if_neg hlong, Except.ok.injEq]
    exact ⟨fun h => ⟨Nat.not_lt.mp hlong, h⟩, fun h => h.2⟩

theorem readMagnitude_eq_ok_iff {k : Nat} :
    readMagnitude m = .ok k ↔
      ∃ gs, AreGroups gs ∧ ['_'].intercalate gs = m ∧ gs.flatten.length ≤ 4300 ∧
        digitsValue gs.flatten = k := by
  constructor
  · intro h
    rw [readMagnitude] at h
    split at h
    · next ds hds =>
      obtain ⟨gs, hgs, hm, rfl⟩ := exists_groups_of_ungroup hds
      exact ⟨gs, hgs, hm, readDigits_eq_ok_iff.mp h⟩
    · cases h
  · rintro ⟨gs, hgs, rfl, h⟩
    rw [readMagnitude, ungroup_intercalate hgs]
    exact readDigits_eq_ok_iff.mpr h

/-! ### Signs -/

theorem isMargin_of_mem_text {sign : Sign} (h : c ∈ sign.text) : isMargin c = false := by
  cases sign with
  | unsigned => cases h
  | plus =>
    obtain rfl := List.mem_singleton.mp h
    decide
  | minus =>
    obtain rfl := List.mem_singleton.mp h
    decide

/-- Every text has a sign in front or none. -/
theorem exists_sign (t : List Char) :
    ∃ (sign : Sign) (m : List Char), t = sign.text ++ m ∧
      (sign = .unsigned → ∀ c ∈ m.head?, c ≠ '-' ∧ c ≠ '+') := by
  cases t with
  | nil => exact ⟨.unsigned, [], rfl, fun _ c hc => nomatch hc⟩
  | cons c t =>
    by_cases hminus : c = '-'
    · exact ⟨.minus, t, by rw [hminus]; rfl, fun h => nomatch h⟩
    · by_cases hplus : c = '+'
      · exact ⟨.plus, t, by rw [hplus]; rfl, fun h => nomatch h⟩
      · refine ⟨.unsigned, c :: t, rfl, fun _ d hd => ?_⟩
        obtain rfl := Option.some.inj hd
        exact ⟨hminus, hplus⟩

/-- What follows the sign is read as a number, which the sign is given to. -/
theorem readInteger_of_trims {sign : Sign} (h : Trims isMargin t (sign.text ++ m))
    (hm : sign = .unsigned → ∀ c ∈ m.head?, c ≠ '-' ∧ c ≠ '+') :
    readInteger t = (readMagnitude m).map sign.apply := by
  rw [readInteger, trimEnd_dropWhile_eq_iff.mpr h]
  cases sign with
  | minus => cases hread : readMagnitude m <;> simp [Sign.text, Sign.apply, hread, Except.map]
  | plus => rfl
  | unsigned =>
    have hm := hm rfl
    simp only [Sign.text, List.nil_append]
    split
    · exact absurd rfl (hm '-' rfl).1
    · exact absurd rfl (hm '+' rfl).2
    · rfl

namespace IntegerText

theorem isMargin_of_mem (p : IntegerText) (h : c ∈ p.sign.text ++ ['_'].intercalate p.groups) :
    isMargin c = false := by
  rcases List.mem_append.mp h with h | h
  · exact isMargin_of_mem_text h
  · obtain rfl | ⟨g, hg, hc⟩ := mem_intercalate h
    · decide
    · exact isMargin_of_isDigit ((p.areGroups.isDigit g hg).2 c hc)

/-- The margins are what is trimmed. -/
theorem trims_text (p : IntegerText) :
    Trims isMargin p.text (p.sign.text ++ ['_'].intercalate p.groups) where
  exists_ends := ⟨p.front, p.back, rfl, p.isMargin_front, p.isMargin_back⟩
  head _ hc := p.isMargin_of_mem (List.mem_of_mem_head? hc)
  getLast _ hc := p.isMargin_of_mem (List.mem_of_mem_getLast? hc)

theorem readInteger_text (p : IntegerText) :
    readInteger p.text = (readMagnitude (['_'].intercalate p.groups)).map p.sign.apply := by
  apply readInteger_of_trims p.trims_text
  intro _ c hc
  obtain rfl | ⟨g, hg, hcg⟩ := mem_intercalate (List.mem_of_mem_head? hc)
  · decide
  · have hdigit : isDigit c = true := (p.areGroups.isDigit g hg).2 c hcg
    exact ⟨ne_of_isDigit hdigit (by decide), ne_of_isDigit hdigit (by decide)⟩

end IntegerText

/-- **A whole number is read from a text exactly if the text writes it.** -/
theorem readInteger_eq_ok_iff : readInteger t = .ok n ↔ Writes t n := by
  constructor
  · intro h
    have htrims := trims_trimEnd isMargin t
    obtain ⟨sign, m, hsign, hm⟩ := exists_sign (trimEnd isMargin (t.dropWhile isMargin))
    rw [hsign] at htrims
    rw [readInteger_of_trims htrims hm] at h
    cases hk : readMagnitude m with
    | error e =>
      rw [hk] at h
      cases h
    | ok k =>
      rw [hk] at h
      obtain ⟨gs, hgs, rfl, hlength, rfl⟩ := readMagnitude_eq_ok_iff.mp hk
      obtain ⟨⟨front, back, rfl, hfront, hback⟩, -, -⟩ := htrims
      refine ⟨⟨front, sign, gs, back, hfront, hgs, hback⟩, rfl, hlength, ?_⟩
      rw [digitsValue_eq_ofDigits] at h
      exact Except.ok.inj h
  · rintro ⟨p, rfl, hlength, rfl⟩
    have hread := readMagnitude_eq_ok_iff.mpr ⟨p.groups, p.areGroups, rfl, hlength, rfl⟩
    rw [p.readInteger_text, hread, digitsValue_eq_ofDigits]
    rfl

example : readInteger "\t+0٣_5\n".toList = .ok 35 := by
  decide

/-- A text writes one number at most. -/
theorem Writes.unique {k : Int} (h : Writes t n) (h' : Writes t k) : n = k := by
  rw [← readInteger_eq_ok_iff] at h h'
  exact Except.ok.inj (h.symm.trans h')

/-- A text that writes no whole number is refused. -/
theorem exists_readInteger_error_iff : (∃ e, readInteger t = .error e) ↔ ¬∃ n, Writes t n := by
  simp only [← readInteger_eq_ok_iff]
  cases readInteger t <;> simp

/-! ### Numbers in decimal digits -/

theorem digitsValue_zeros_append (zeros : Nat) (ds : List Char) :
    digitsValue (List.replicate zeros '0' ++ ds) = digitsValue ds := by
  have hzero : digitValue? '0' = some 0 := by decide
  induction zeros with
  | zero => rfl
  | succ zeros ih =>
    rw [List.replicate_succ, List.cons_append, ← ih]
    simp [digitsValue, hzero]

/-- A number in decimal digits, with any leading zeros, is written so if its digits are not too many. -/
theorem writes_zeros_decimal {zeros k : Nat} (h : zeros + (decimal k).length ≤ 4300) :
    Writes (List.replicate zeros '0' ++ decimal k) k := by
  have hne : List.replicate zeros '0' ++ decimal k ≠ [] := by
    apply List.append_ne_nil_of_right_ne_nil
    exact List.ne_nil_of_length_pos (length_decimal_pos k)
  have hdigit : ∀ c ∈ List.replicate zeros '0' ++ decimal k, isDigit c = true := by
    intro c hc
    rcases List.mem_append.mp hc with hc | hc
    · rw [List.eq_of_mem_replicate hc]
      decide
    · exact (isDecimal_decimal k).isDigit hc
  refine ⟨⟨[], .unsigned, [List.replicate zeros '0' ++ decimal k], [], by simp,
    ⟨List.cons_ne_nil _ _, List.forall_mem_singleton.mpr ⟨hne, hdigit⟩⟩, by simp⟩, ?_, ?_, ?_⟩
  · simp [IntegerText.text, Sign.text]
  · simpa [IntegerText.digits] using h
  · rw [IntegerText.value, IntegerText.digits, ← digitsValue_eq_ofDigits, List.flatten_singleton,
      digitsValue_zeros_append, digitsValue_decimal]
    rfl

end Almanac.Text
