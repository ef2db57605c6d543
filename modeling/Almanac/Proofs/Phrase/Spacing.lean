import Almanac.Proofs.Phrase.Ending
import Almanac.Proofs.Text.LetterCase
import Mathlib.Logic.Relation

/-!
# Spacing and letter case

Blanks may be written before a phrase and after it, any run of blanks in it may be another one, and
letters of ASCII may be capital or small: the normal form stays the same, and what is made of the
phrase with it. The only blanks of a normal form are single spaces inside it.
-/

namespace Almanac.Phrase

open Calendar Text

variable {m r t u : List Char}

/-! ### Runs of blanks -/

/-- Whether a text is a run of one or more blanks. -/
def IsGap (r : List Char) : Prop :=
  r ≠ [] ∧ ∀ c ∈ r, isBlank c = true

theorem words_lower_append_cons {b : Char} (hb : isBlank b = true) (p s : List Char) :
    words (lower (p ++ b :: s)) = words (lower p) ++ words (lower s) := by
  rw [lower_append_cons hb, words_append_cons hb]

theorem words_lower_append (hm : ∀ c ∈ m, isBlank c = true) (t : List Char) :
    words (lower (m ++ t)) = words (lower t) := by
  induction m with
  | nil => rfl
  | cons b m ih =>
    obtain ⟨hb, hm⟩ := List.forall_mem_cons.mp hm
    rw [← ih hm]
    exact words_lower_append_cons hb [] (m ++ t)

/-- A text has the words of what stands before a run of blanks and of what stands after it. -/
theorem words_lower_gap (hr : IsGap r) (p s : List Char) :
    words (lower (p ++ r ++ s)) = words (lower p) ++ words (lower s) := by
  obtain ⟨hne, hblank⟩ := hr
  cases r with
  | nil => exact absurd rfl hne
  | cons b r =>
    obtain ⟨hb, hr⟩ := List.forall_mem_cons.mp hblank
    rw [List.append_assoc, List.cons_append, words_lower_append_cons hb, words_lower_append hr]

theorem words_lower_append_blanks (hm : ∀ c ∈ m, isBlank c = true) (t : List Char) :
    words (lower (t ++ m)) = words (lower t) := by
  by_cases hne : m = []
  · rw [hne, List.append_nil]
  · have h := words_lower_gap ⟨hne, hm⟩ t []
    rw [List.append_nil] at h
    rw [h]
    exact List.append_nil _

/-! ### Edits -/

/-- A change of the spacing of a text, or of the case of one of its letters. -/
inductive Edit : List Char → List Char → Prop
  /-- Blanks are added before the text. -/
  | before {m : List Char} (hm : ∀ c ∈ m, isBlank c = true) (t : List Char) : Edit t (m ++ t)
  /-- Blanks are added after the text. -/
  | after {m : List Char} (hm : ∀ c ∈ m, isBlank c = true) (t : List Char) : Edit t (t ++ m)
  /-- A run of blanks, however far it goes, is replaced by another one. -/
  | respaced {r m : List Char} (hr : IsGap r) (hm : IsGap m) (p s : List Char) :
    Edit (p ++ r ++ s) (p ++ m ++ s)
  /-- A letter of ASCII is made capital or small. -/
  | recased {c d : Char} (h : c.toLower = d.toLower) (p s : List Char) :
    Edit (p ++ c :: s) (p ++ d :: s)

/-- An edit keeps the words of a text in lower case. -/
theorem Edit.words_lower_eq (h : Edit t u) : words (lower u) = words (lower t) := by
  cases h with
  | before hm => exact words_lower_append hm t
  | after hm => exact words_lower_append_blanks hm t
  | respaced hr hm p s => rw [words_lower_gap hr, words_lower_gap hm]
  | @recased c d h p s =>
    have hmap : (p ++ c :: s).map Char.toLower = (p ++ d :: s).map Char.toLower := by simp [h]
    rw [lower_eq_of_map_toLower hmap]

theorem normalize_eq_of_edits (h : Relation.ReflTransGen Edit t u) :
    normalize u = normalize t := by
  induction h with
  | refl => rfl
  | tail _ hedit ih => rw [← ih, normalize_eq, normalize_eq, hedit.words_lower_eq]

theorem isSinglySpaced_normalize (t : List Char) : IsSinglySpaced (normalize t) := by
  rw [← spaced_words_normalize]
  exact isSinglySpaced_spaced (forall_mem_words _)

/-- **Spacing and letter case make no difference.** However a phrase is respaced, and whichever of its
    letters of ASCII are made capital or small, the same is made of it at any reference instant, by
    any table. The only blanks of its normal form are single spaces inside it. -/
theorem interpret_eq_of_edits (t : List Char) :
    (∀ u, Relation.ReflTransGen Edit t u → ∀ (table : List Row) (now : Instant),
        interpret table u now = interpret table t now) ∧
      IsSinglySpaced (normalize t) := by
  refine ⟨?_, isSinglySpaced_normalize t⟩
  intro u hu table now
  rw [interpret, interpret, normalize_eq_of_edits hu]

/-- Tomorrow at three, with an ideographic space before it, a tab and a no-break space in it, a line
    feed after it, and half of the meridiem in capitals. -/
theorem tomorrow_respaced :
    Relation.ReflTransGen Edit "tomorrow at 3pm".toList "\u3000tomorrow\t\u00A0at 3Pm\n".toList ∧
      interpret Row.all "\u3000tomorrow\t\u00A0at 3Pm\n".toList mondayAtTen =
        .ok (.resolved .namedDayClock
          ⟨.on (.ofNumbers 2024 1 16 (by decide)) (15 * hour) (by decide), .floating, false⟩
          "Tomorrow at 3:00 PM") := by
  have hgap : IsGap [' '] ∧ IsGap ['\t', '\u00A0'] :=
    ⟨⟨by decide, List.all_eq_true.mp (by decide)⟩, by decide, List.all_eq_true.mp (by decide)⟩
  have hbefore : Edit "tomorrow at 3pm".toList "\u3000tomorrow at 3pm".toList :=
    .before (m := ['\u3000']) (List.all_eq_true.mp (by decide)) _
  have hrespaced : Edit "\u3000tomorrow at 3pm".toList "\u3000tomorrow\t\u00A0at 3pm".toList :=
    .respaced hgap.1 hgap.2 "\u3000tomorrow".toList "at 3pm".toList
  have hrecased : Edit "\u3000tomorrow\t\u00A0at 3pm".toList
      "\u3000tomorrow\t\u00A0at 3Pm".toList :=
    .recased (by decide : 'p'.toLower = 'P'.toLower) "\u3000tomorrow\t\u00A0at 3".toList ['m']
  have hafter : Edit "\u3000tomorrow\t\u00A0at 3Pm".toList
      "\u3000tomorrow\t\u00A0at 3Pm\n".toList :=
    .after (m := ['\n']) (List.all_eq_true.mp (by decide)) "\u3000tomorrow\t\u00A0at 3Pm".toList
  have hedits := Relation.ReflTransGen.head hbefore
    (.head hrespaced (.head hrecased (.single hafter)))
  refine ⟨hedits, ?_⟩
  rw [(interpret_eq_of_edits _).1 _ hedits]
  decide +kernel

end Almanac.Phrase
