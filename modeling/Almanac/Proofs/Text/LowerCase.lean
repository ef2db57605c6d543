import Almanac.Text.Blank
import Almanac.Text.Caseless
import Almanac.Text.LowerCase

/-!
# Small letters

Lower case does away with the capitals that stand for small letters in words; only the long s and the
dotless i, which are small letters, go on standing for another letter. Small letters have no other
small letter, so that lower case leaves a text as it is that is in lower case already. Blanks have no
case, and no sigma is looked at through a blank: the words of a text are lowered one by one.
-/

namespace Almanac.Text

/-! ### Capitals and their small letters -/

variable {c x : Char} {before t : List Char}

/-- Small letters are characters. -/
theorem isValidChar_of_mem_caseSpans : ∀ s ∈ caseSpans,
    s.image + (s.last - s.first) < 0xD800 ∨
      0xDFFF < s.image ∧ s.image + (s.last - s.first) < 0x110000 := by
  decide +kernel

/-- A character is a capital of some span, with a small letter, or is kept. -/
theorem lowerChar_cases (c : Char) :
    (∃ s ∈ caseSpans, s.covers c.toNat = true ∧
        (lowerChar c).toNat = s.image + (c.toNat - s.first)) ∨
      (∀ s ∈ caseSpans, ¬s.covers c.toNat = true) ∧ lowerChar c = c := by
  cases hs : caseSpans.find? (·.covers c.toNat) with
  | none => exact .inr ⟨List.find?_eq_none.mp hs, by rw [lowerChar, hs]⟩
  | some s =>
    have hmem := List.mem_of_find?_eq_some hs
    have hcov := List.find?_some hs
    refine .inl ⟨s, hmem, hcov, ?_⟩
    have hvalid : (s.image + (c.toNat - s.first)).isValidChar := by
      have himage := isValidChar_of_mem_caseSpans s hmem
      simp only [CaseSpan.covers, Bool.and_eq_true, decide_eq_true_eq] at hcov
      rw [Nat.isValidChar]
      omega
    simp only [lowerChar, hs]
    rw [Char.ofNat, dif_pos hvalid]
    rfl

/-! ### Small letters -/

/-- Whether a character is none of the capitals that stand for small letters in words. -/
def IsSmall (c : Char) : Prop :=
  ¬('A' ≤ c ∧ c ≤ 'Z') ∧ c ≠ '\u212A' ∧ c ≠ 'İ'

/-- Whether a character is a small letter that stands for another one in words. -/
def IsStray (c : Char) : Prop :=
  c = 'ſ' ∨ c = 'ı'

instance (c : Char) : Decidable (IsStray c) := inferInstanceAs (Decidable (_ ∨ _))

theorem caseless_of_isSmall (h : IsSmall c) (hs : ¬IsStray c) : caseless c = c := by
  obtain ⟨h₁, h₂, h₃⟩ := h
  obtain ⟨hs₁, hs₂⟩ := not_or.mp hs
  rw [caseless, if_neg h₁, if_neg hs₁, if_neg h₂, if_neg (not_or.mpr ⟨h₃, hs₂⟩)]

theorem isSmall_of_toNat (h₁ : c.toNat < 65 ∨ 90 < c.toNat) (h₂ : c.toNat ≠ 0x212A)
    (h₃ : c.toNat ≠ 0x130) : IsSmall c := by
  refine ⟨?_, ?_, ?_⟩
  · rintro ⟨ha, hz⟩
    have ha : 65 ≤ c.toNat := ha
    have hz : c.toNat ≤ 90 := hz
    omega
  · rintro rfl
    exact h₂ rfl
  · rintro rfl
    exact h₃ rfl

/-- The number of a character that is given by a number, unless there is none. -/
theorem toNat_ofNat (n : Nat) : (Char.ofNat n).toNat = n ∨ (Char.ofNat n).toNat = 0 := by
  rw [Char.ofNat]
  by_cases h : n.isValidChar
  · rw [dif_pos h]
    exact .inl rfl
  · rw [dif_neg h]
    exact .inr rfl

/-- No span of capitals has its small letters among the capitals that stand for small letters. -/
theorem image_of_mem_caseSpans : ∀ s ∈ caseSpans, 90 < s.image ∧
    (s.image + (s.last - s.first) < 0x130 ∨ 0x130 < s.image) ∧
    (s.image + (s.last - s.first) < 0x212A ∨ 0x212A < s.image) := by
  decide +kernel

/-- Those capitals, but for the dotted one, are in the spans. -/
theorem isSmall_of_forall_not_covers (hc : c ≠ 'İ')
    (h : ∀ s ∈ caseSpans, ¬s.covers c.toNat = true) : IsSmall c := by
  refine ⟨?_, ?_, hc⟩
  · rintro ⟨ha, hz⟩
    have ha : 65 ≤ c.toNat := ha
    have hz : c.toNat ≤ 90 := hz
    refine h ⟨0x41, 0x5A, 1, 0x61⟩ (List.mem_cons_self ..) ?_
    simp [CaseSpan.covers, ha, hz, Nat.mod_one]
  · rintro rfl
    have hk : ∃ s ∈ caseSpans, s.covers 0x212A = true := by decide +kernel
    obtain ⟨s, hs, hcov⟩ := hk
    exact h s hs hcov

theorem isSmall_lowerChar (hc : c ≠ 'İ') : IsSmall (lowerChar c) := by
  rcases lowerChar_cases c with ⟨s, hs, hcov, himage⟩ | ⟨hnone, hself⟩
  · obtain ⟨h₁, h₂, h₃⟩ := image_of_mem_caseSpans s hs
    simp only [CaseSpan.covers, Bool.and_eq_true, decide_eq_true_eq] at hcov
    refine isSmall_of_toNat ?_ ?_ ?_ <;> omega
  · rw [hself]
    exact isSmall_of_forall_not_covers hc hnone

/-- The letters with rules of their own are lowered to these; every other one goes by the spans. -/
theorem mem_lowerFrom (h : x ∈ lowerFrom before t) :
    x ∈ ['i', '\u0307', 'ς', 'σ'] ∨ ∃ c, c ≠ 'İ' ∧ x = lowerChar c := by
  induction t generalizing before with
  | nil => cases h
  | cons c t ih =>
    rw [lowerFrom_cons, List.mem_append] at h
    rcases h with h | h
    · split at h
      · rw [List.mem_cons, List.mem_singleton] at h
        rcases h with rfl | rfl
        · exact .inl (by decide)
        · exact .inl (by decide)
      · next hc =>
        split at h
        · obtain rfl := List.mem_singleton.mp h
          split
          · exact .inl (by decide)
          · exact .inl (by decide)
        · exact .inr ⟨c, hc, List.mem_singleton.mp h⟩
    · exact ih h

/-- The lower case of a text is made of small letters. -/
theorem isSmall_of_mem_lowerFrom (h : x ∈ lowerFrom before t) : IsSmall x := by
  rcases mem_lowerFrom h with h | ⟨c, hc, rfl⟩
  · simp only [List.mem_cons, List.not_mem_nil, or_false] at h
    rcases h with rfl | rfl | rfl | rfl <;>
      exact isSmall_of_toNat (by decide) (by decide) (by decide)
  · exact isSmall_lowerChar hc

/-- The two strays are kept by lower case. -/
theorem mem_lowerFrom_of_isStray (hs : IsStray x) (h : x ∈ t) : x ∈ lowerFrom before t := by
  induction t generalizing before with
  | nil => cases h
  | cons c t ih =>
    rw [lowerFrom_cons, List.mem_append]
    rcases List.mem_cons.mp h with rfl | h
    · left
      rcases hs with rfl | rfl
      · rw [if_neg (by decide), if_neg (by decide)]
        decide +kernel
      · rw [if_neg (by decide), if_neg (by decide)]
        decide +kernel
    · exact .inr (ih h)

/-- Apart from the two letters with rules of their own, lower case goes letter by letter. -/
theorem lowerFrom_of_forall_ne (ht : ∀ c ∈ t, c ≠ 'İ' ∧ c ≠ 'Σ') :
    lowerFrom before t = t.map lowerChar := by
  induction t generalizing before with
  | nil => rfl
  | cons c t ih =>
    obtain ⟨hdot, hsigma⟩ := ht c (List.mem_cons_self ..)
    rw [lowerFrom_cons, if_neg hdot, if_neg hsigma,
      ih fun d hd => ht d (List.mem_cons_of_mem c hd)]
    rfl

theorem ne_of_toNat_lt (hx : x.toNat < 128) : x ≠ 'İ' ∧ x ≠ 'Σ' := by
  constructor
  · rintro rfl
    exact absurd hx (by decide)
  · rintro rfl
    exact absurd hx (by decide)

/-- In ASCII, lower case goes letter by letter. -/
theorem lowerFrom_of_ascii (ht : ∀ c ∈ t, c.toNat < 128) :
    lowerFrom before t = t.map lowerChar :=
  lowerFrom_of_forall_ne fun c hc => ne_of_toNat_lt (ht c hc)

/-- Of the letters of ASCII, the capitals have their small letters 32 places further on. -/
theorem lowerChar_of_toNat_lt (h : c.toNat < 128) :
    lowerChar c = if 65 ≤ c.toNat ∧ c.toNat ≤ 90 then Char.ofNat (c.toNat + 32) else c := by
  have hspans : caseSpans = ⟨0x41, 0x5A, 1, 0x61⟩ :: caseSpans.tail := rfl
  have hrest : caseSpans.tail.find? (·.covers c.toNat) = none := by
    have hall : ∀ s ∈ caseSpans.tail, 128 ≤ s.first := by decide +kernel
    rw [List.find?_eq_none]
    intro s hs
    have hfirst := hall s hs
    simp only [CaseSpan.covers, Bool.and_eq_true, decide_eq_true_eq]
    omega
  rw [lowerChar, hspans, List.find?_cons, hrest]
  by_cases hc : 65 ≤ c.toNat ∧ c.toNat ≤ 90
  · have hcov : CaseSpan.covers ⟨0x41, 0x5A, 1, 0x61⟩ c.toNat = true := by
      simp [CaseSpan.covers, hc, Nat.mod_one]
    have himage : 0x61 + (c.toNat - 0x41) = c.toNat + 32 := by omega
    simp only [hcov, if_pos hc, himage]
  · have hcov : CaseSpan.covers ⟨0x41, 0x5A, 1, 0x61⟩ c.toNat = false := by
      simp only [CaseSpan.covers, Bool.and_eq_false_iff, decide_eq_false_iff_not]
      omega
    simp only [hcov, if_neg hc]

theorem toNat_lt_of_mem_lowerFrom (ht : ∀ c ∈ t, c.toNat < 128) (h : x ∈ lowerFrom before t) :
    x.toNat < 128 := by
  rw [lowerFrom_of_ascii ht] at h
  obtain ⟨c, hc, rfl⟩ := List.mem_map.mp h
  rw [lowerChar_of_toNat_lt (ht c hc)]
  split
  · next hcap =>
    have hn := toNat_ofNat (c.toNat + 32)
    omega
  · exact ht c hc

theorem lowerChar_space : lowerChar ' ' = ' ' := by
  rw [lowerChar_of_toNat_lt (by decide), if_neg (by decide)]

/-! ### Words in small letters -/

theorem toNat_of_isLower (h : c.isLower = true) : 97 ≤ c.toNat ∧ c.toNat ≤ 122 := by
  have h : (decide (97 ≤ c.toNat) && decide (c.toNat ≤ 122)) = true := h
  simpa only [Bool.and_eq_true, decide_eq_true_eq] using h

theorem lowerChar_of_isLower (h : c.isLower = true) : lowerChar c = c := by
  obtain ⟨h₁, h₂⟩ := toNat_of_isLower h
  rw [lowerChar_of_toNat_lt (by omega), if_neg (by omega)]

theorem map_lowerChar_of_isLower (h : t.all Char.isLower = true) : t.map lowerChar = t := by
  refine (List.map_congr_left ?_).trans (List.map_id' t)
  intro x hx
  exact lowerChar_of_isLower (List.all_eq_true.mp h x hx)

/-- Lower case keeps small letters of ASCII and spaces. -/
theorem lower_of_isLower (h : t.all (fun c => c == ' ' || c.isLower) = true) : lower t = t := by
  have hmem : ∀ c ∈ t, c = ' ' ∨ c.isLower = true := by simpa using h
  have hascii : ∀ c ∈ t, c.toNat < 128 := by
    intro c hc
    rcases hmem c hc with rfl | hc
    · decide
    · have := toNat_of_isLower hc
      omega
  rw [lower, lowerFrom_of_ascii hascii]
  refine (List.map_congr_left ?_).trans (List.map_id' t)
  intro c hc
  rcases hmem c hc with rfl | hc
  · exact lowerChar_space
  · exact lowerChar_of_isLower hc

theorem all_space_or_isLower (h : t.all Char.isLower = true) :
    t.all (fun c => c == ' ' || c.isLower) = true := by
  rw [List.all_eq_true] at h ⊢
  intro c hc
  rw [h c hc, Bool.or_true]

theorem lowerString_of_isLower {s : String} (h : s.toList.all Char.isLower = true) :
    lowerString s = s := by
  rw [lowerString, lower_of_isLower (all_space_or_isLower h), String.ofList_toList]

theorem not_isStray_of_toNat_lt (h : x.toNat < 128) : ¬IsStray x := by
  rintro (rfl | rfl)
  · exact absurd h (by decide)
  · exact absurd h (by decide)

/-! ### Characters in ranges -/

variable {rs ss : List (Nat × Nat)}

/-- Whether no number lies in a range of the one list and in a range of the other. -/
def areApart (rs ss : List (Nat × Nat)) : Bool :=
  rs.all fun r => ss.all fun s => r.2.blt s.1 || s.2.blt r.1

theorem inRanges_iff : inRanges rs c = true ↔ ∃ r ∈ rs, r.1 ≤ c.toNat ∧ c.toNat ≤ r.2 := by
  simp only [inRanges, List.any_eq_true, Bool.and_eq_true, decide_eq_true_eq]

theorem inRanges_eq_false_of_areApart (h : areApart rs ss = true) (hc : inRanges rs c = true) :
    inRanges ss c = false := by
  rw [Bool.eq_false_iff]
  intro hs
  obtain ⟨r, hr, hr₁, hr₂⟩ := inRanges_iff.mp hc
  obtain ⟨s, hs, hs₁, hs₂⟩ := inRanges_iff.mp hs
  have hrs := List.all_eq_true.mp (List.all_eq_true.mp h r hr) s hs
  rw [Bool.or_eq_true, Nat.blt_eq, Nat.blt_eq] at hrs
  omega

/-- The ranges of the blanks. -/
def blankRanges : List (Nat × Nat) :=
  [(9, 13), (28, 32), (0x85, 0x85), (0xA0, 0xA0), (0x1680, 0x1680), (0x2000, 0x200A),
    (0x2028, 0x2029), (0x202F, 0x202F), (0x205F, 0x205F), (0x3000, 0x3000)]

theorem isBlank_eq_inRanges (c : Char) : isBlank c = inRanges blankRanges c := by
  rw [Bool.eq_iff_iff, inRanges_iff]
  simp only [isBlank, blankRanges, Bool.or_eq_true, Bool.and_eq_true, decide_eq_true_eq, beq_iff_eq,
    List.mem_cons, List.not_mem_nil, or_false, exists_eq_or_imp, exists_eq_left]
  omega

/-- The ranges of the capitals, and of what stands between those of a span. -/
def capitalRanges : List (Nat × Nat) :=
  caseSpans.map fun s => (s.first, s.last)

/-- The ranges of their small letters. -/
def imageRanges : List (Nat × Nat) :=
  caseSpans.map fun s => (s.image, s.image + (s.last - s.first))

/-! ### Lower case of lower case -/

/-- Whether the small letters of one span are no capitals of another. -/
def CaseSpan.isSettledBy (s u : CaseSpan) : Bool :=
  (s.image + (s.last - s.first)).blt u.first || u.last.blt s.image ||
    (u.step == 2 && (s.step == 2 || s.first == s.last) && (s.image + u.first) % 2 == 1)

theorem CaseSpan.not_covers_of_isSettledBy {s u : CaseSpan} {n : Nat}
    (h : s.isSettledBy u = true) (hn : s.covers n = true) :
    ¬u.covers (s.image + (n - s.first)) = true := by
  simp only [isSettledBy, covers, Bool.or_eq_true, Bool.and_eq_true, Nat.blt_eq, beq_iff_eq,
    decide_eq_true_eq] at h hn ⊢
  rintro ⟨⟨hfirst, hlast⟩, hstep⟩
  rcases h with (h | h) | ⟨⟨hu, hs⟩, hodd⟩
  · omega
  · omega
  · -- the capitals of the one span and the small letters of the other alternate
    rw [hu] at hstep
    rcases hs with hs | hs
    · rw [hs] at hn
      omega
    · omega

theorem isSettledBy_of_mem_caseSpans :
    (caseSpans.all fun s => caseSpans.all fun u => s.isSettledBy u) = true := by
  decide +kernel

theorem lowerChar_lowerChar (c : Char) : lowerChar (lowerChar c) = lowerChar c := by
  rcases lowerChar_cases c with ⟨s, hs, hcov, himage⟩ | ⟨-, hself⟩
  · rcases lowerChar_cases (lowerChar c) with ⟨u, hu, hcov', -⟩ | ⟨-, hself⟩
    · have hsettled := List.all_eq_true.mp (List.all_eq_true.mp isSettledBy_of_mem_caseSpans s hs) u hu
      rw [himage] at hcov'
      exact absurd hcov' (CaseSpan.not_covers_of_isSettledBy hsettled hcov)
    · exact hself
  · rw [hself, hself]

theorem lowerChar_of_inRanges (h : areApart rs capitalRanges = true) (hc : inRanges rs c = true) :
    lowerChar c = c := by
  rcases lowerChar_cases c with ⟨s, hs, hcov, -⟩ | ⟨-, hself⟩
  · have hcap : inRanges capitalRanges c = true := by
      simp only [CaseSpan.covers, Bool.and_eq_true, decide_eq_true_eq] at hcov
      exact inRanges_iff.mpr ⟨_, List.mem_map_of_mem hs, hcov.1⟩
    rw [inRanges_eq_false_of_areApart h hc] at hcap
    cases hcap
  · exact hself

/-- What is apart from the capitals and their small letters is kept, and nothing else becomes it. -/
theorem inRanges_lowerChar (h : areApart rs capitalRanges = true)
    (h' : areApart rs imageRanges = true) (c : Char) :
    inRanges rs (lowerChar c) = inRanges rs c := by
  cases hc : inRanges rs c with
  | true => rw [lowerChar_of_inRanges h hc, hc]
  | false =>
    rcases lowerChar_cases c with ⟨s, hs, hcov, himage⟩ | ⟨-, hself⟩
    · have himg : inRanges imageRanges (lowerChar c) = true := by
        simp only [CaseSpan.covers, Bool.and_eq_true, decide_eq_true_eq] at hcov
        refine inRanges_iff.mpr ⟨_, List.mem_map_of_mem hs, ?_, ?_⟩
        · omega
        · simp only [himage]
          omega
      rw [Bool.eq_false_iff]
      intro hl
      rw [inRanges_eq_false_of_areApart h' hl] at himg
      cases himg
    · rw [hself, hc]

/-- Whether a character is one that lower case keeps wherever it stands. -/
structure IsLowered (x : Char) : Prop where
  single : x ≠ 'İ' ∧ x ≠ 'Σ'
  kept   : lowerChar x = x

theorem isLowered_lowerChar (hc : c ≠ 'İ') : IsLowered (lowerChar c) := by
  refine ⟨⟨(isSmall_lowerChar hc).2.2, ?_⟩, lowerChar_lowerChar c⟩
  intro hsigma
  have hkept := lowerChar_lowerChar c
  rw [hsigma] at hkept
  exact absurd hkept (by decide +kernel)

theorem isLowered_of_mem_lowerFrom (h : x ∈ lowerFrom before t) : IsLowered x := by
  rcases mem_lowerFrom h with h | ⟨c, hc, rfl⟩
  · simp only [List.mem_cons, List.not_mem_nil, or_false] at h
    rcases h with rfl | rfl | rfl | rfl <;> exact ⟨by decide, by decide +kernel⟩
  · exact isLowered_lowerChar hc

theorem lowerFrom_of_isLowered (h : ∀ x ∈ t, IsLowered x) : lowerFrom before t = t := by
  rw [lowerFrom_of_forall_ne fun x hx => (h x hx).single]
  exact (List.map_congr_left fun x hx => (h x hx).kept).trans (List.map_id' t)

/-! ### Blanks in lower case -/

theorem isLowered_of_isBlank (h : isBlank c = true) : IsLowered c := by
  refine ⟨⟨?_, ?_⟩, ?_⟩
  · rintro rfl
    cases h
  · rintro rfl
    cases h
  · rw [isBlank_eq_inRanges] at h
    exact lowerChar_of_inRanges (by decide +kernel) h

theorem startsCased_cons (c : Char) (t : List Char) :
    startsCased (c :: t) =
      if inRanges caseIgnoredRanges c then startsCased t else inRanges casedRanges c := by
  cases h : inRanges caseIgnoredRanges c with
  | true => rw [startsCased, List.dropWhile_cons_of_pos h, if_pos rfl, startsCased]
  | false =>
    rw [startsCased, List.dropWhile_cons_of_neg (Bool.eq_false_iff.mp h),
      if_neg Bool.false_ne_true]

theorem startsCased_cons_of_isBlank (h : isBlank c = true) (t : List Char) :
    startsCased (c :: t) = false := by
  rw [isBlank_eq_inRanges] at h
  have hignored : inRanges caseIgnoredRanges c = false :=
    inRanges_eq_false_of_areApart (by decide +kernel) h
  have hcased : inRanges casedRanges c = false :=
    inRanges_eq_false_of_areApart (by decide +kernel) h
  rw [startsCased_cons, hignored, hcased]
  rfl

/-- What is uncased makes no difference where a cased letter is looked for. -/
theorem startsCased_append {e : List Char} (h : startsCased e = false) (t : List Char) :
    startsCased (t ++ e) = startsCased t := by
  induction t with
  | nil => exact h
  | cons c t ih => rw [List.cons_append, startsCased_cons, startsCased_cons, ih]

/-- What is written on without a cased letter does not change the lower case of a text. -/
theorem lowerFrom_append {e : List Char} (h : startsCased e = false) (before t : List Char) :
    lowerFrom before (t ++ e) = lowerFrom before t ++ lowerFrom (t.reverse ++ before) e := by
  induction t generalizing before with
  | nil => rfl
  | cons c t ih =>
    rw [List.cons_append, lowerFrom_cons, lowerFrom_cons, ih, endsWord, endsWord,
      startsCased_append h, List.append_assoc, List.reverse_cons, List.append_assoc]
    rfl

theorem lowerFrom_append_before {r : List Char} (h : startsCased r = false)
    (before t : List Char) : lowerFrom (before ++ r) t = lowerFrom before t := by
  induction t generalizing before with
  | nil => rfl
  | cons c t ih =>
    rw [lowerFrom_cons, lowerFrom_cons, endsWord, endsWord, startsCased_append h]
    exact congrArg _ (ih (c :: before))

/-- The parts of a text before and after a blank are lowered one by one. -/
theorem lower_append_cons {b : Char} (hb : isBlank b = true) (s t : List Char) :
    lower (s ++ b :: t) = lower s ++ b :: lower t := by
  have hkept := isLowered_of_isBlank hb
  have hbefore : lowerFrom (b :: (s.reverse ++ [])) t = lower t :=
    lowerFrom_append_before (startsCased_cons_of_isBlank hb _) [] t
  rw [lower, lowerFrom_append (startsCased_cons_of_isBlank hb t), lowerFrom_cons,
    if_neg hkept.single.1, if_neg hkept.single.2, hkept.kept, hbefore]
  rfl

end Almanac.Text
