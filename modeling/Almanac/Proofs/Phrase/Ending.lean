import Almanac.Proofs.Phrase.Interpretation
import Mathlib.Data.List.DropRight

/-!
# Endings of phrases

A phrase may end with blanks and with marks that end a sentence. The marks are dropped before the
blanks, each once, so that one run of marks is dropped, with blanks before and after it, and of
several runs only the last one. So a phrase is in normal form, and what is written after it makes no
difference, as long as the marks at its end are a single run. With more of them the normal form ends
with a mark, and no row reads it.
-/

namespace Almanac.Phrase

open Calendar Text Shape

variable {c x : Char} {s t e m : List Char} {row : Row}

/-! ### Blanks and marks -/

/-- Whether a character is a blank or a mark that ends a sentence. -/
def isTrailing (c : Char) : Bool :=
  isBlank c || isEndMark c

/-- The ranges of these characters. -/
def trailingRanges : List (Nat × Nat) :=
  blankRanges ++ [('.'.toNat, '.'.toNat), ('!'.toNat, '!'.toNat), ('?'.toNat, '?'.toNat)]

theorem isEndMark_iff : isEndMark c = true ↔ c = '.' ∨ c = '!' ∨ c = '?' := by
  simp [isEndMark, or_assoc]

theorem isBlank_of_isEndMark (h : isEndMark c = true) : isBlank c = false := by
  rcases isEndMark_iff.mp h with rfl | rfl | rfl <;> decide

theorem isTrailing_eq_inRanges (c : Char) : isTrailing c = inRanges trailingRanges c := by
  have heq (y : Char) : c = y ↔ y.toNat ≤ c.toNat ∧ c.toNat ≤ y.toNat := by
    rw [← Char.toNat_inj]
    omega
  rw [isTrailing, isBlank_eq_inRanges, Bool.eq_iff_iff, Bool.or_eq_true, isEndMark_iff, inRanges_iff,
    inRanges_iff, trailingRanges, heq, heq, heq]
  simp only [List.mem_append, or_and_right, exists_or, List.mem_cons, List.not_mem_nil, or_false,
    exists_eq_left]

theorem isTrailing_lowerChar (c : Char) : isTrailing (lowerChar c) = isTrailing c := by
  rw [isTrailing_eq_inRanges, isTrailing_eq_inRanges]
  exact inRanges_lowerChar (by decide +kernel) (by decide +kernel) c

theorem isLowered_of_isTrailing (h : isTrailing c = true) : IsLowered c := by
  rw [isTrailing, Bool.or_eq_true] at h
  rcases h with h | h
  · exact isLowered_of_isBlank h
  · rcases isEndMark_iff.mp h with rfl | rfl | rfl
    · exact ⟨by decide, by decide +kernel⟩
    · exact ⟨by decide, by decide +kernel⟩
    · exact ⟨by decide, by decide +kernel⟩

theorem startsCased_of_isTrailing (he : ∀ c ∈ e, isTrailing c = true) : startsCased e = false := by
  induction e with
  | nil => rfl
  | cons c e ih =>
    have hc : inRanges trailingRanges c = true := by
      rw [← isTrailing_eq_inRanges]
      exact he c (List.mem_cons_self ..)
    have hcased : inRanges casedRanges c = false :=
      inRanges_eq_false_of_areApart (by decide +kernel) hc
    rw [startsCased_cons, hcased, ih fun d hd => he d (List.mem_cons_of_mem c hd), ite_self]

/-- Blanks and marks at the end of a text are kept by lower case, and change nothing before them. -/
theorem lower_append (s : List Char) (he : ∀ c ∈ e, isTrailing c = true) :
    lower (s ++ e) = lower s ++ e := by
  rw [lower, lowerFrom_append (startsCased_of_isTrailing he),
    lowerFrom_of_isLowered fun c hc => isLowered_of_isTrailing (he c hc)]
  rfl

/-! ### Settled texts -/

/-- Whether a text does not end with a blank or a mark. -/
def IsSettled (t : List Char) : Prop :=
  ∀ c ∈ t.getLast?, isTrailing c = false

theorem IsSettled.isBlank (h : IsSettled t) : ∀ c ∈ t.getLast?, isBlank c = false :=
  fun c hc => (Bool.or_eq_false_iff.mp (h c hc)).1

theorem IsSettled.isEndMark (h : IsSettled t) : ∀ c ∈ t.getLast?, isEndMark c = false :=
  fun c hc => (Bool.or_eq_false_iff.mp (h c hc)).2

theorem isSettled_concat : IsSettled (s ++ [c]) ↔ isTrailing c = false := by
  rw [IsSettled, List.getLast?_concat]
  exact ⟨fun h => h c rfl, fun h x hx => Option.some.inj hx ▸ h⟩

theorem exists_lowerFrom_concat (hc : isTrailing c = false) (before s : List Char) :
    ∃ p y, isTrailing y = false ∧ lowerFrom before (s ++ [c]) = p ++ [y] := by
  induction s generalizing before with
  | nil =>
    rw [List.nil_append, lowerFrom_cons]
    split
    · exact ⟨['i'], '\u0307', by decide, rfl⟩
    · split
      · split
        · exact ⟨[], 'ς', by decide, rfl⟩
        · exact ⟨[], 'σ', by decide, rfl⟩
      · exact ⟨[], lowerChar c, (isTrailing_lowerChar c).trans hc, rfl⟩
  | cons d s ih =>
    obtain ⟨p, y, hy, hp⟩ := ih (d :: before)
    rw [List.cons_append, lowerFrom_cons, hp, ← List.append_assoc]
    exact ⟨_, y, hy, rfl⟩

theorem IsSettled.lower (h : IsSettled t) : IsSettled (lower t) := by
  rcases List.eq_nil_or_concat t with rfl | ⟨s, c, rfl⟩
  · exact h
  · rw [List.concat_eq_append] at h ⊢
    obtain ⟨p, y, hy, hp⟩ := exists_lowerFrom_concat (isSettled_concat.mp h) [] s
    rw [Text.lower, hp]
    exact isSettled_concat.mpr hy

theorem IsSettled.spaced_words (h : IsSettled t) : IsSettled (spaced (words t)) := by
  rw [IsSettled, getLast?_spaced_words h.isBlank]
  exact h

/-! ### Dropping marks -/

/-- A text without the marks at its end, and without the blanks at either end after that. -/
def dropMarks (t : List Char) : List Char :=
  trim (trimEnd isEndMark t)

theorem normalize_eq (t : List Char) : normalize t = dropMarks (spaced (words (lower t))) := rfl

theorem dropMarks_spaced_words (h : IsSettled t) :
    dropMarks (spaced (words t)) = spaced (words t) := by
  rw [dropMarks, trimEnd_of_getLast? h.spaced_words.isEndMark, trim_spaced_words]

/-- A mark that is written on at a word is dropped with what is before it. -/
theorem dropMarks_words_concat (hlast : ∀ b ∈ t.getLast?, isBlank b = false)
    (hc : isEndMark c = true) :
    dropMarks (spaced (words (t ++ [c]))) = dropMarks (spaced (words t)) := by
  have hblank : ∀ x ∈ [c], isBlank x = false := by simpa using isBlank_of_isEndMark hc
  rw [spaced_words_append hlast hblank, dropMarks, trimEnd_append _ (by simpa using hc), dropMarks]

/-- A mark that stands alone is dropped, and no mark before it. -/
theorem dropMarks_words_concat_of_isBlank {b : Char} (hb : isBlank b = true)
    (hc : isEndMark c = true) (t : List Char) :
    dropMarks (spaced (words (t ++ [b] ++ [c]))) = spaced (words t) := by
  have hone : words [c] = [[c]] :=
    words_of_forall (List.cons_ne_nil c []) (by simpa using isBlank_of_isEndMark hc)
  have hmark : ∀ x ∈ [c], isEndMark x = true := by simpa using hc
  rw [List.append_assoc, List.singleton_append, words_append_cons hb, hone]
  by_cases ht : words t = []
  · have hdrop := trimEnd_append [] hmark
    rw [List.nil_append] at hdrop
    rw [ht, List.nil_append, spaced_singleton, dropMarks, hdrop]
    rfl
  · have hsplit : spaced (words t ++ [[c]]) = (spaced (words t) ++ [' ']) ++ [c] := by
      rw [spaced_append ht (List.cons_ne_nil _ _), List.append_assoc]
      rfl
    rw [hsplit, dropMarks, trimEnd_append _ hmark, trimEnd_concat _ (by decide),
      trim_append _ (by simp [isBlank]), trim_spaced_words]

/-! ### The end of a text -/

/-- Blanks at the end of a text are no words of it. -/
theorem words_append_of_words_eq_nil (s : List Char) (he : words e = []) :
    words (s ++ e) = words s := by
  cases e with
  | nil => rw [List.append_nil]
  | cons b e =>
    cases hb : isBlank b with
    | true =>
      rw [words_cons_of_isBlank hb] at he
      rw [words_append_cons hb, he, List.append_nil]
    | false => exact absurd he (words_cons_ne_nil hb e)

/-- A text ends with its last mark, if there is one after all else, when its words are set apart. -/
theorem exists_endMark_of_words_ne_nil (s : List Char) (he : ∀ c ∈ e, isTrailing c = true)
    (hne : words e ≠ []) : ∃ c ∈ (spaced (words (s ++ e))).getLast?, isEndMark c = true := by
  induction e using List.reverseRecOn with
  | nil => exact absurd rfl hne
  | append_singleton e c ih =>
    have he' : ∀ d ∈ e, isTrailing d = true := fun d hd => he d (List.mem_append_left _ hd)
    have hc := he c (List.mem_append_right e (List.mem_singleton_self c))
    rw [← List.append_assoc]
    cases hb : isBlank c with
    | true =>
      rw [words_concat_of_isBlank hb] at hne ⊢
      exact ih he' hne
    | false =>
      rw [isTrailing, hb, Bool.false_or] at hc
      refine ⟨c, ?_, hc⟩
      rw [getLast?_spaced_words (by simpa using hb), List.getLast?_concat]
      rfl

/-- The ways in which blanks and marks at the end of a text can end themselves. -/
theorem dropMarks_append (hs : IsSettled s) (he : ∀ c ∈ e, isTrailing c = true) :
    ((words e).length ≤ 1 → dropMarks (spaced (words (s ++ e))) = spaced (words s)) ∧
      (1 < (words e).length → ∃ f, (∀ c ∈ f, isTrailing c = true) ∧ words f ≠ [] ∧
        dropMarks (spaced (words (s ++ e))) = spaced (words (s ++ f))) := by
  induction e using List.reverseRecOn with
  | nil =>
    rw [List.append_nil]
    exact ⟨fun _ => dropMarks_spaced_words hs, fun h => absurd h (by decide)⟩
  | append_singleton e c ih =>
    have he' : ∀ d ∈ e, isTrailing d = true := fun d hd => he d (List.mem_append_left _ hd)
    have hc := he c (List.mem_append_right e (List.mem_singleton_self c))
    rw [← List.append_assoc]
    cases hb : isBlank c with
    | true =>
      rw [words_concat_of_isBlank hb, words_concat_of_isBlank hb]
      exact ih he'
    | false =>
      rw [isTrailing, hb, Bool.false_or] at hc
      by_cases hlast : ∀ d ∈ e.getLast?, isBlank d = false
      · -- the mark belongs to the run of marks before it, or is the first one
        have hlast' : ∀ d ∈ (s ++ e).getLast?, isBlank d = false := by
          intro d hd
          rw [List.getLast?_append] at hd
          rcases Option.or_eq_some_iff.mp hd with hd | ⟨-, hd⟩
          · exact hlast d hd
          · exact hs.isBlank d hd
        rw [dropMarks_words_concat hlast' hc,
          length_words_append hlast (List.cons_ne_nil c []) (by simpa using hb)]
        exact ⟨fun h => (ih he').1 (by omega), fun h => (ih he').2 (by omega)⟩
      · -- the mark stands alone, so that it is the only one to be dropped
        simp only [not_forall, Bool.not_eq_false] at hlast
        obtain ⟨b, hb', hblank⟩ := hlast
        obtain ⟨f, rfl⟩ := List.getLast?_eq_some_iff.mp hb'
        have hlength : (words (f ++ [b] ++ [c])).length = (words f).length + 1 := by
          rw [List.append_assoc, List.singleton_append, words_append_cons hblank,
            words_of_forall (List.cons_ne_nil c []) (by simpa using hb), List.length_append]
          rfl
        rw [← List.append_assoc, dropMarks_words_concat_of_isBlank hblank hc, hlength]
        constructor
        · intro h
          have hf : words f = [] := List.length_eq_zero_iff.mp (by omega)
          rw [words_append_of_words_eq_nil s hf]
        · intro h
          have hf : words f ≠ [] := List.length_pos_iff.mp (by omega)
          exact ⟨f, fun d hd => he' d (List.mem_append_left _ hd), hf, rfl⟩

/-! ### The ending of a phrase -/

/-- The blanks and marks at the end of a phrase. -/
def ending (t : List Char) : List Char :=
  t.rtakeWhile isTrailing

/-- What stands before them. -/
def stem (t : List Char) : List Char :=
  t.rdropWhile isTrailing

/-- Whether a phrase ends with a single run of marks at most. -/
def EndsOnce (t : List Char) : Prop :=
  (words (ending t)).length ≤ 1

instance (t : List Char) : Decidable (EndsOnce t) := inferInstanceAs (Decidable (_ ≤ _))

theorem stem_append_ending (t : List Char) : stem t ++ ending t = t :=
  List.rdropWhile_append_rtakeWhile

theorem isTrailing_of_mem_ending (h : c ∈ ending t) : isTrailing c = true :=
  List.mem_rtakeWhile_imp h

theorem isSettled_stem (t : List Char) : IsSettled (stem t) := by
  intro c hc
  obtain ⟨hne, rfl⟩ := List.mem_getLast?_eq_getLast hc
  exact Bool.eq_false_iff.mpr (List.rdropWhile_last_not _ _ hne)

theorem IsSettled.stem_eq (h : IsSettled t) : stem t = t ∧ ending t = [] := by
  have hlast (hne : t ≠ []) : ¬isTrailing (t.getLast hne) = true := by
    rw [h _ (List.getLast?_eq_some_getLast hne)]
    exact Bool.false_ne_true
  exact ⟨List.rdropWhile_eq_self_iff.mpr hlast, List.rtakeWhile_eq_nil_iff.mpr hlast⟩

theorem ending_append (t : List Char) (hm : ∀ c ∈ m, isTrailing c = true) :
    ending (t ++ m) = ending t ++ m ∧ stem (t ++ m) = stem t := by
  induction m using List.reverseRecOn with
  | nil => exact ⟨by rw [List.append_nil, List.append_nil], by rw [List.append_nil]⟩
  | append_singleton m c ih =>
    have hc := hm c (List.mem_append_right m (List.mem_singleton_self c))
    have ih := ih fun d hd => hm d (List.mem_append_left _ hd)
    rw [← List.append_assoc, ending, stem, List.rtakeWhile_concat_pos _ _ _ hc,
      List.rdropWhile_concat_pos _ _ _ hc]
    exact ⟨by rw [← List.append_assoc, ← ih.1, ending], ih.2⟩

theorem normalize_cases (t : List Char) :
    (EndsOnce t → normalize t = spaced (words (lower (stem t)))) ∧
      (¬EndsOnce t → ∃ f, (∀ c ∈ f, isTrailing c = true) ∧ words f ≠ [] ∧
        normalize t = spaced (words (lower (stem t) ++ f))) := by
  have hlower : lower t = lower (stem t) ++ ending t := by
    rw [← lower_append (stem t) fun c hc => isTrailing_of_mem_ending hc, stem_append_ending]
  obtain ⟨h₁, h₂⟩ := dropMarks_append (isSettled_stem t).lower fun c => isTrailing_of_mem_ending
  rw [normalize_eq, hlower]
  exact ⟨h₁, fun h => h₂ (Nat.lt_of_not_le h)⟩

/-- What stands before a phrase is put into normal form by itself. -/
theorem normalize_append_cons {b : Char} (hb : isBlank b = true) (hs : words (lower s) ≠ [])
    (ht : EndsOnce t) (hne : normalize t ≠ []) :
    normalize (s ++ b :: t) = spaced (words (lower s)) ++ ' ' :: normalize t := by
  have hn := (normalize_cases t).1 ht
  have hwords : words (lower (stem t)) ≠ [] := by
    intro h
    rw [hn, h] at hne
    exact hne rfl
  have hstem : stem t ≠ [] := by
    intro h
    rw [h] at hwords
    exact hwords rfl
  have hsettled : IsSettled (s ++ b :: stem t) := by
    intro c hc
    rw [List.getLast?_append_of_ne_nil _ (List.cons_ne_nil _ _),
      List.getLast?_cons_of_ne_nil hstem] at hc
    exact isSettled_stem t c hc
  have hsplit : s ++ b :: t = (s ++ b :: stem t) ++ ending t := by
    rw [List.append_assoc, List.cons_append, stem_append_ending]
  obtain ⟨hending, hstem'⟩ := ending_append (s ++ b :: stem t)
    fun c (hc : c ∈ ending t) => isTrailing_of_mem_ending hc
  rw [hsettled.stem_eq.2, List.nil_append] at hending
  rw [hsettled.stem_eq.1] at hstem'
  have hends : EndsOnce ((s ++ b :: stem t) ++ ending t) := by
    rw [EndsOnce, hending]
    exact ht
  rw [hsplit, (normalize_cases _).1 hends, hstem', lower_append_cons hb, words_append_cons hb,
    spaced_append hs hwords, ← hn]

/-- A phrase that ends with more than one run of marks has a normal form that ends with a mark. -/
theorem exists_endMark_normalize (h : ¬EndsOnce t) :
    ∃ c ∈ (normalize t).getLast?, isEndMark c = true := by
  obtain ⟨f, hf, hne, hn⟩ := (normalize_cases t).2 h
  rw [hn]
  exact exists_endMark_of_words_ne_nil _ hf hne

theorem isSettled_normalize (h : EndsOnce t) : IsSettled (normalize t) := by
  rw [(normalize_cases t).1 h]
  exact (isSettled_stem t).lower.spaced_words

theorem exists_endMark_normalize_iff :
    (∃ c ∈ (normalize t).getLast?, isEndMark c = true) ↔ ¬EndsOnce t := by
  refine ⟨?_, exists_endMark_normalize⟩
  rintro ⟨c, hc, hmark⟩ h
  rw [(isSettled_normalize h).isEndMark c hc] at hmark
  cases hmark

/-- The words of a normal form are set apart by single spaces. -/
theorem spaced_words_normalize (t : List Char) : spaced (words (normalize t)) = normalize t := by
  by_cases h : EndsOnce t
  · rw [(normalize_cases t).1 h, words_spaced (forall_mem_words _)]
  · obtain ⟨f, -, -, hn⟩ := (normalize_cases t).2 h
    rw [hn, words_spaced (forall_mem_words _)]

/-- Normal forms are in lower case already. -/
theorem normalize_normalize_eq_dropMarks (t : List Char) :
    normalize (normalize t) = dropMarks (normalize t) := by
  have hlower : lower (normalize t) = normalize t := by
    refine lowerFrom_of_isLowered fun x hx => ?_
    rcases mem_normalize hx with rfl | hx
    · exact isLowered_of_isBlank (by decide)
    · exact isLowered_of_mem_lowerFrom hx
  rw [normalize_eq (normalize t), hlower, spaced_words_normalize]

theorem normalize_normalize_iff : normalize (normalize t) = normalize t ↔ EndsOnce t := by
  rw [normalize_normalize_eq_dropMarks]
  constructor
  · intro h
    by_contra hends
    obtain ⟨c, hc, hmark⟩ := exists_endMark_normalize hends
    obtain ⟨u, hu⟩ := List.getLast?_eq_some_iff.mp hc
    rw [hu, dropMarks, trimEnd_append _ (by simpa using hmark)] at h
    have hle := (trim_isInfix (trimEnd isEndMark u)).length_le.trans (trimEnd_isPrefix _ u).length_le
    rw [h, List.length_append] at hle
    exact absurd hle (by simp)
  · intro h
    rw [(normalize_cases t).1 h, dropMarks_spaced_words (isSettled_stem t).lower]

/-! ### Reading to the end -/

/-- The letters and marks of the words of a shape. -/
def Shape.letters : Shape → List Char
  | .word w       => w.toList
  | .gap          => []
  | .space        => []
  | .digits _ _ _ => []
  | .oneOf _ ws   => ws.flatMap String.toList
  | .optional s   => s.letters
  | .either s u   => s.letters ++ u.letters
  | .andThen s u  => s.letters ++ u.letters

theorem Shape.Reads.mem_letters {s : Shape} {d : Captures} (h : s.Reads t d) (hx : x ∈ t) :
    isBlank x = true ∨ isDigit x = true ∨ caseless x ∈ s.letters := by
  induction h with
  | word h =>
    rw [letters, ← h]
    exact .inr (.inr (List.mem_map_of_mem hx))
  | gap hne h => exact .inl (h x hx)
  | space h => exact .inl (h x hx)
  | digits h hl hm => exact .inr (.inl (h x hx))
  | oneOf hw h =>
    refine .inr (.inr (List.mem_flatMap.mpr ⟨_, hw, ?_⟩))
    rw [← h]
    exact List.mem_map_of_mem hx
  | skipped => cases hx
  | taken h ih => exact ih hx
  | left h ih => exact (ih hx).imp_right fun h => h.imp_right (List.mem_append_left _)
  | right h ih => exact (ih hx).imp_right fun h => h.imp_right (List.mem_append_right _)
  | andThen hs hu ihs ihu =>
    rcases List.mem_append.mp hx with hx | hx
    · exact (ihs hx).imp_right fun h => h.imp_right (List.mem_append_left _)
    · exact (ihu hx).imp_right fun h => h.imp_right (List.mem_append_right _)

theorem any_isEndMark_letters (row : Row) : row.shape.letters.any isEndMark = false := by
  cases row <;> decide +kernel

/-- A shape without marks that end a sentence reads none. -/
theorem Shape.Reads.isEndMark {s : Shape} {d : Captures} (h : s.Reads t d)
    (hs : s.letters.any isEndMark = false) (hx : x ∈ t) : isEndMark x = false := by
  rw [Bool.eq_false_iff]
  intro hmark
  have hkept : caseless x = x ∧ isDigit x = false := by
    rcases isEndMark_iff.mp hmark with rfl | rfl | rfl <;> decide
  rcases h.mem_letters hx with hb | hd | hl
  · rw [isBlank_of_isEndMark hmark] at hb
    cases hb
  · rw [hkept.2] at hd
    cases hd
  · rw [hkept.1] at hl
    exact List.any_eq_false.mp hs x hl hmark

theorem interpret_of_not_endsOnce (table : List Row) (h : ¬EndsOnce t) (now : Instant) :
    interpret table t now = .ok (.failed .unmatched) := by
  obtain ⟨x, hx, hmark⟩ := exists_endMark_normalize h
  have hmem : x ∈ normalize t := List.mem_of_mem_getLast? hx
  have hfind : Reading.find? table (normalize t) = none := by
    rw [Reading.find?_eq_none_iff]
    intro row _ d hd
    rw [hd.isEndMark (any_isEndMark_letters row) hmem] at hmark
    cases hmark
  simp only [interpret, if_neg (List.ne_nil_of_mem hmem), hfind]

theorem EndsOnce.of_append (hm : ∀ c ∈ m, isTrailing c = true) (h : EndsOnce (t ++ m)) :
    EndsOnce t := by
  rw [EndsOnce, (ending_append t hm).1] at h
  exact (length_words_le_append (ending t) m).trans h

/-- **Phrases that end once.** The normal form of a phrase is in normal form itself, and does not end
    with a mark, exactly if the phrase ends with a single run of marks at most. Written after a
    phrase, blanks and marks make no difference to what is made of it as long as that is so of both
    together; otherwise nothing is made of it. -/
theorem normal_form_iff_endsOnce (t : List Char) :
    (normalize (normalize t) = normalize t ↔ EndsOnce t) ∧
      ((∃ c ∈ (normalize t).getLast?, isEndMark c = true) ↔ ¬EndsOnce t) ∧
      ∀ m : List Char, (∀ c ∈ m, isBlank c = true ∨ isEndMark c = true) →
        ∀ (table : List Row) (now : Instant),
          interpret table (t ++ m) now =
            if EndsOnce (t ++ m) then interpret table t now else .ok (.failed .unmatched) := by
  refine ⟨normalize_normalize_iff, exists_endMark_normalize_iff, ?_⟩
  intro m hm table now
  have hm : ∀ c ∈ m, isTrailing c = true := fun c hc => Bool.or_eq_true_iff.mpr (hm c hc)
  split
  · next h =>
    have hsame : normalize (t ++ m) = normalize t := by
      rw [(normalize_cases _).1 h, (normalize_cases t).1 (h.of_append hm), (ending_append t hm).2]
    rw [interpret, interpret, hsame]
  · next h => exact interpret_of_not_endsOnce table h now

/-- Blanks around one run of marks make no difference. -/
theorem interpret_tomorrow_exclaimed :
    (∀ c ∈ " !? ".toList, isBlank c = true ∨ isEndMark c = true) ∧
      interpret Row.all ("tomorrow".toList ++ " !? ".toList) mondayAtTen =
        interpret Row.all "tomorrow".toList mondayAtTen := by
  have hm : ∀ c ∈ " !? ".toList, isBlank c = true ∨ isEndMark c = true := by
    have hall : " !? ".toList.all isTrailing = true := by decide
    exact fun c hc => Bool.or_eq_true_iff.mp (List.all_eq_true.mp hall c hc)
  have h := (normal_form_iff_endsOnce "tomorrow".toList).2.2 _ hm Row.all mondayAtTen
  rw [if_pos (by decide)] at h
  exact ⟨hm, h⟩

/-- Of two runs of marks only the last one is dropped. Then the normal form is not in normal form, it
    ends with a mark, and nothing is made of a phrase that is understood without the marks. -/
theorem two_runs_of_marks :
    normalize "tomorrow . !".toList = "tomorrow .".toList ∧
      normalize "tomorrow .".toList = "tomorrow".toList ∧
      interpret Row.all "tomorrow . !".toList mondayAtTen = .ok (.failed .unmatched) ∧
      interpret Row.all "tomorrow".toList mondayAtTen =
        .ok (.resolved .namedDay
          ⟨.on (.ofNumbers 2024 1 16 (by decide)) (9 * hour) (by decide), .floating, false⟩
          "In 23 hours (9:00 AM)") := by
  decide +kernel

end Almanac.Phrase
