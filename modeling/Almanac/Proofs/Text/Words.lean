import Almanac.Text.Blank
import Mathlib.Data.List.Basic
import Mathlib.Data.List.Induction
import Mathlib.Data.List.TakeWhile

/-!
# Words set apart by single spaces

Words that are set apart by single spaces are found again. A text that neither starts nor ends with
a blank is trimmed already. What is written on at the end of a text goes on with its last word, or
after a blank starts another one.
-/

namespace Almanac.Text

variable {b c x : Char} {drop : Char → Bool} {t w : List Char} {ws : List (List Char)}

/-! ### Trimming -/

theorem trimEnd_concat (t : List Char) (h : drop c = false) :
    trimEnd drop (t ++ [c]) = t ++ [c] := by
  induction t with
  | nil => simp [trimEnd_cons, h]
  | cons d t ih => simp [trimEnd_cons, ih]

theorem trimEnd_of_getLast? (h : ∀ c ∈ t.getLast?, drop c = false) : trimEnd drop t = t := by
  rcases List.eq_nil_or_concat t with rfl | ⟨t, c, rfl⟩
  · rfl
  · rw [List.concat_eq_append]
    exact trimEnd_concat t (h c (by simp))

theorem trim_of_ends (hfirst : ∀ c ∈ t.head?, isBlank c = false)
    (hlast : ∀ c ∈ t.getLast?, isBlank c = false) : trim t = t := by
  have hdrop : t.dropWhile isBlank = t := by
    cases t with
    | nil => rfl
    | cons c t => simp [hfirst c rfl]
  rw [trim, hdrop, trimEnd_of_getLast? hlast]

/-- What may be dropped at the end of a text makes no difference there. -/
theorem trimEnd_append (t : List Char) {e : List Char} (he : ∀ c ∈ e, drop c = true) :
    trimEnd drop (t ++ e) = trimEnd drop t := by
  induction t with
  | nil =>
    induction e with
    | nil => rfl
    | cons c e ih =>
      have ih := ih fun d hd => he d (List.mem_cons_of_mem c hd)
      rw [List.nil_append, trimEnd_nil] at ih ⊢
      rw [trimEnd_cons, if_pos ih, if_pos (he c (List.mem_cons_self ..))]
  | cons c t ih => rw [List.cons_append, trimEnd_cons, ih, trimEnd_cons]

theorem trimEnd_isPrefix (drop : Char → Bool) (t : List Char) : trimEnd drop t <+: t := by
  induction t with
  | nil => exact List.prefix_rfl
  | cons c t ih =>
    rw [trimEnd_cons]
    split
    · split
      · exact List.nil_prefix
      · exact List.cons_prefix_cons.mpr ⟨rfl, List.nil_prefix⟩
    · exact List.cons_prefix_cons.mpr ⟨rfl, ih⟩

theorem trim_append (t : List Char) {e : List Char} (he : ∀ c ∈ e, isBlank c = true) :
    trim (t ++ e) = trim t := by
  rw [trim, trim, List.dropWhile_append]
  split
  · next h => rw [List.dropWhile_eq_nil_iff.mpr he, List.isEmpty_iff.mp h]
  · exact trimEnd_append _ he

theorem trim_isInfix (t : List Char) : trim t <:+: t :=
  (trimEnd_isPrefix isBlank _).isInfix.trans (List.dropWhile_suffix isBlank).isInfix

/-! ### Words -/

theorem words_cons_of_isBlank (h : isBlank b = true) (t : List Char) :
    words (b :: t) = words t := by
  rw [words.eq_def]
  simp [h]

theorem words_cons_ne_nil (h : isBlank c = false) (t : List Char) : words (c :: t) ≠ [] := by
  rw [words.eq_def]
  cases t with
  | nil => simp [h]
  | cons d t =>
    simp only [h, Bool.false_eq_true, if_false]
    split
    · simp
    · split <;> simp

/-- A text is cut into words at every blank. -/
theorem words_append_cons (hb : isBlank b = true) (s t : List Char) :
    words (s ++ b :: t) = words s ++ words t := by
  induction s with
  | nil => exact words_cons_of_isBlank hb t
  | cons c s ih =>
    cases hc : isBlank c with
    | true => rw [List.cons_append, words_cons_of_isBlank hc, words_cons_of_isBlank hc, ih]
    | false =>
      rw [List.cons_append, words.eq_def, words.eq_def (c :: s)]
      cases s with
      | nil => simp [hc, hb, words_cons_of_isBlank hb]
      | cons d s =>
        rw [List.cons_append] at ih ⊢
        cases hd : isBlank d with
        | true => simp [hc, hd, ih]
        | false =>
          obtain ⟨w, ws, hw⟩ := List.exists_cons_of_ne_nil (words_cons_ne_nil hd s)
          simp [hc, hd, ih, hw]

theorem words_of_forall (hne : w ≠ []) (h : ∀ c ∈ w, isBlank c = false) : words w = [w] := by
  induction w with
  | nil => exact absurd rfl hne
  | cons c w ih =>
    rw [words.eq_def]
    cases w with
    | nil => simp [h c]
    | cons d w =>
      have hd : isBlank d = false := h d (by simp)
      simp [h c, hd, ih (by simp) fun x hx => h x (List.mem_cons_of_mem c hx)]

/-- A word of a text with one more character in front is a word of the text, perhaps with that
    character in front, or the character alone. -/
theorem mem_words_cons {c : Char} (h : w ∈ words (c :: t)) :
    w ∈ words t ∨ w = [c] ∨ ∃ v ∈ words t, w = c :: v := by
  rw [words.eq_def] at h
  dsimp only at h
  split at h
  · exact .inl h
  · split at h
    · exact .inr (.inl (List.mem_singleton.mp h))
    · split at h
      · rcases List.mem_cons.mp h with rfl | h
        · exact .inr (.inl rfl)
        · exact .inl h
      · split at h
        · exact .inr (.inl (List.mem_singleton.mp h))
        · next v vs hv =>
          rw [hv]
          rcases List.mem_cons.mp h with rfl | h
          · exact .inr (.inr ⟨v, List.mem_cons_self .., rfl⟩)
          · exact .inl (List.mem_cons_of_mem v h)

/-- The characters of the words of a text are among its own. -/
theorem subset_of_mem_words (h : w ∈ words t) : w ⊆ t := by
  induction t generalizing w with
  | nil => cases h
  | cons c t ih =>
    rcases mem_words_cons h with h | rfl | ⟨v, hv, rfl⟩
    · exact List.subset_cons_of_subset c (ih h)
    · exact List.cons_subset_cons c (List.nil_subset t)
    · exact List.cons_subset_cons c (ih hv)

/-- A word is not empty and has no blanks. -/
theorem forall_mem_words (t : List Char) : ∀ w ∈ words t, w ≠ [] ∧ ∀ c ∈ w, isBlank c = false := by
  fun_induction words t with
  | case1 => simp
  | case2 c t hc ih => exact ih
  | case3 c hc => simpa using hc
  | case4 c hc d t hd ih => simpa using ⟨by simpa using hc, ih⟩
  | case5 c hc d t hd hw ih => simpa [hw] using hc
  | case6 c hc d t hd v vs hv ih =>
    rw [hv, List.forall_mem_cons] at ih
    simp only [hv, List.forall_mem_cons]
    exact ⟨⟨List.cons_ne_nil c v, by simpa using hc, ih.1.2⟩, ih.2⟩

/-- Words set apart by single spaces are the words of their text. -/
theorem words_spaced (h : ∀ w ∈ ws, w ≠ [] ∧ ∀ c ∈ w, isBlank c = false) :
    words (spaced ws) = ws := by
  induction ws using spaced.induct with
  | case1 => rfl
  | case2 w =>
    have hw := h w (by simp)
    rw [spaced_singleton, words_of_forall hw.1 hw.2]
  | case3 w v ws ih =>
    have hw := h w (by simp)
    rw [spaced_cons_cons, words_append_cons (by decide), words_of_forall hw.1 hw.2,
      ih fun u hu => h u (List.mem_cons_of_mem w hu)]
    rfl

theorem map_spaced (f : Char → Char) (hf : f ' ' = ' ') (ws : List (List Char)) :
    (spaced ws).map f = spaced (ws.map (·.map f)) := by
  induction ws using spaced.induct with
  | case1 => rfl
  | case2 w => rfl
  | case3 w v ws ih => simp_all

theorem mem_spaced (h : x ∈ spaced ws) : x = ' ' ∨ ∃ w ∈ ws, x ∈ w := by
  induction ws using spaced.induct with
  | case1 => cases h
  | case2 w => exact .inr ⟨w, List.mem_singleton_self w, h⟩
  | case3 w v ws ih =>
    rw [spaced_cons_cons, List.mem_append, List.mem_cons] at h
    rcases h with h | rfl | h
    · exact .inr ⟨w, List.mem_cons_self .., h⟩
    · exact .inl rfl
    · obtain h | ⟨u, hu, hx⟩ := ih h
      · exact .inl h
      · exact .inr ⟨u, List.mem_cons_of_mem w hu, hx⟩

/-! ### Ends -/

theorem spaced_ne_nil (h : ∀ w ∈ ws, w ≠ []) (hne : ws ≠ []) : spaced ws ≠ [] := by
  cases ws with
  | nil => exact absurd rfl hne
  | cons w ws => cases ws <;> simp [h w]

theorem exists_mem_of_head?_spaced (h : ∀ w ∈ ws, w ≠ []) (hx : x ∈ (spaced ws).head?) :
    ∃ w ∈ ws, x ∈ w := by
  induction ws using spaced.induct with
  | case1 => cases hx
  | case2 w => exact ⟨w, by simp, List.mem_of_mem_head? hx⟩
  | case3 w v ws ih =>
    rw [spaced_cons_cons, List.head?_append_of_ne_nil _ (h w (by simp))] at hx
    exact ⟨w, by simp, List.mem_of_mem_head? hx⟩

theorem exists_mem_of_getLast?_spaced (h : ∀ w ∈ ws, w ≠ []) (hx : x ∈ (spaced ws).getLast?) :
    ∃ w ∈ ws, x ∈ w := by
  induction ws using spaced.induct with
  | case1 => cases hx
  | case2 w => exact ⟨w, by simp, List.mem_of_mem_getLast? hx⟩
  | case3 w v ws ih =>
    have hrest : ∀ u ∈ v :: ws, u ≠ [] := fun u hu => h u (List.mem_cons_of_mem w hu)
    rw [spaced_cons_cons, List.getLast?_append_of_ne_nil _ (by simp),
      List.getLast?_cons_of_ne_nil (spaced_ne_nil hrest (by simp))] at hx
    obtain ⟨u, hu, hxu⟩ := ih hrest hx
    exact ⟨u, List.mem_cons_of_mem w hu, hxu⟩

/-- Words set apart by single spaces are trimmed already. -/
theorem trim_spaced_words (t : List Char) : trim (spaced (words t)) = spaced (words t) := by
  have hne : ∀ w ∈ words t, w ≠ [] := fun w hw => (forall_mem_words t w hw).1
  refine trim_of_ends ?_ ?_
  · intro c hc
    obtain ⟨w, hw, hcw⟩ := exists_mem_of_head?_spaced hne hc
    exact (forall_mem_words t w hw).2 c hcw
  · intro c hc
    obtain ⟨w, hw, hcw⟩ := exists_mem_of_getLast?_spaced hne hc
    exact (forall_mem_words t w hw).2 c hcw

/-! ### Blanks -/

/-- Whether the only blanks of a text are single spaces inside it. -/
def IsSinglySpaced (t : List Char) : Prop :=
  ∀ p b s, t = p ++ b :: s → isBlank b = true →
    b = ' ' ∧ (∃ c ∈ p.getLast?, isBlank c = false) ∧ ∃ c ∈ s.head?, isBlank c = false

/-- Words set apart by single spaces have no other blanks. -/
theorem isSinglySpaced_spaced (h : ∀ w ∈ ws, w ≠ [] ∧ ∀ c ∈ w, isBlank c = false) :
    IsSinglySpaced (spaced ws) := by
  intro p b s heq hb
  induction ws using spaced.induct generalizing p with
  | case1 => simp at heq
  | case2 w =>
    have hmem : b ∈ spaced [w] := by rw [heq]; simp
    rw [(h w (List.mem_singleton_self w)).2 b hmem] at hb
    cases hb
  | case3 w v ws ih =>
    obtain ⟨hne, hword⟩ := h w (List.mem_cons_self ..)
    have hrest : ∀ u ∈ v :: ws, u ≠ [] ∧ ∀ c ∈ u, isBlank c = false :=
      fun u hu => h u (List.mem_cons_of_mem w hu)
    -- the blank does not stand in the first word
    obtain ⟨r, rfl, hr⟩ : ∃ r, p = w ++ r ∧ ' ' :: spaced (v :: ws) = r ++ b :: s := by
      rcases List.append_eq_append_iff.mp heq with hp | ⟨r, rfl, hr⟩
      · exact hp
      · cases r with
        | nil => exact ⟨[], by simp, hr.symm⟩
        | cons c r =>
          obtain ⟨rfl, -⟩ := List.cons.inj hr
          rw [hword b (by simp)] at hb
          cases hb
    cases r with
    | nil =>
      obtain ⟨rfl, rfl⟩ := List.cons.inj hr
      have hrest' : ∀ u ∈ v :: ws, u ≠ [] := fun u hu => (hrest u hu).1
      obtain ⟨x, t, ht⟩ := List.exists_cons_of_ne_nil (spaced_ne_nil hrest' (List.cons_ne_nil v ws))
      have hx : x ∈ (spaced (v :: ws)).head? := by rw [ht]; rfl
      obtain ⟨u, hu, hxu⟩ := exists_mem_of_head?_spaced hrest' hx
      refine ⟨rfl, ⟨w.getLast hne, ?_, hword _ (List.getLast_mem hne)⟩, x, hx, (hrest u hu).2 x hxu⟩
      rw [List.append_nil]
      exact List.getLast?_eq_some_getLast hne
    | cons x r =>
      obtain ⟨-, hr⟩ := List.cons.inj hr
      obtain ⟨hspace, ⟨c, hc, hcb⟩, hhead⟩ := ih hrest r hr
      refine ⟨hspace, ⟨c, ?_, hcb⟩, hhead⟩
      obtain ⟨r, rfl⟩ := List.getLast?_eq_some_iff.mp hc
      rw [← List.cons_append, ← List.append_assoc, List.getLast?_concat]
      rfl

/-! ### Writing on -/

theorem spaced_append {vs : List (List Char)} (hws : ws ≠ []) (hvs : vs ≠ []) :
    spaced (ws ++ vs) = spaced ws ++ ' ' :: spaced vs := by
  obtain ⟨u, us, rfl⟩ := List.exists_cons_of_ne_nil hvs
  induction ws using spaced.induct with
  | case1 => exact absurd rfl hws
  | case2 w => rfl
  | case3 w v ws ih =>
    have ih := ih (List.cons_ne_nil v ws)
    rw [List.cons_append] at ih
    rw [List.cons_append, List.cons_append, spaced_cons_cons, ih, spaced_cons_cons,
      List.append_assoc, List.cons_append]

theorem spaced_concat_append (ws : List (List Char)) (w v : List Char) :
    spaced (ws ++ [w ++ v]) = spaced (ws ++ [w]) ++ v := by
  by_cases hne : ws = []
  · rw [hne]
    rfl
  · rw [spaced_append hne (List.cons_ne_nil _ _), spaced_append hne (List.cons_ne_nil _ _),
      List.append_assoc]
    rfl

theorem words_concat_of_isBlank (hb : isBlank b = true) (t : List Char) :
    words (t ++ [b]) = words t := by
  rw [words_append_cons hb]
  exact List.append_nil _

/-- The last word of a text that does not end with a blank is gone on with. -/
theorem exists_last_word (hne : t ≠ []) (hlast : ∀ c ∈ t.getLast?, isBlank c = false) :
    ∃ ws w, words t = ws ++ [w] ∧ w.getLast? = t.getLast? ∧
      ∀ v, (∀ c ∈ v, isBlank c = false) → words (t ++ v) = ws ++ [w ++ v] := by
  suffices h : ∃ ws w, w.getLast? = t.getLast? ∧
      ∀ v, (∀ c ∈ v, isBlank c = false) → words (t ++ v) = ws ++ [w ++ v] by
    obtain ⟨ws, w, hw, happend⟩ := h
    have hself := happend [] fun c hc => nomatch hc
    rw [List.append_nil, List.append_nil] at hself
    exact ⟨ws, w, hself, hw, happend⟩
  induction t using List.reverseRecOn with
  | nil => exact absurd rfl hne
  | append_singleton t c ih =>
    have hc : isBlank c = false := hlast c (by simp)
    rcases List.eq_nil_or_concat t with rfl | ⟨s, b, rfl⟩
    · refine ⟨[], [c], rfl, ?_⟩
      intro v hv
      exact words_of_forall (List.cons_ne_nil c v) (List.forall_mem_cons.mpr ⟨hc, hv⟩)
    · rw [List.concat_eq_append] at ih ⊢
      cases hb : isBlank b with
      | true =>
        refine ⟨words s, [c], by simp, ?_⟩
        intro v hv
        rw [List.append_assoc, List.append_assoc, List.singleton_append, List.singleton_append,
          words_append_cons hb, words_of_forall (List.cons_ne_nil c v)
            (List.forall_mem_cons.mpr ⟨hc, hv⟩)]
      | false =>
        obtain ⟨ws, w, -, happend⟩ := ih (by simp) (by simpa using hb)
        refine ⟨ws, w ++ [c], by simp, ?_⟩
        intro v hv
        have hcv : ∀ d ∈ [c] ++ v, isBlank d = false := List.forall_mem_cons.mpr ⟨hc, hv⟩
        rw [List.append_assoc _ [c] v, happend _ hcv, List.append_assoc]

/-- Words are set apart again, and what is written on at the last one is written on at the end. -/
theorem spaced_words_append (hlast : ∀ c ∈ t.getLast?, isBlank c = false)
    (hw : ∀ c ∈ w, isBlank c = false) : spaced (words (t ++ w)) = spaced (words t) ++ w := by
  by_cases ht : t = []
  · subst ht
    by_cases hne : w = []
    · rw [hne]
      rfl
    · rw [List.nil_append, words_of_forall hne hw]
      rfl
  · obtain ⟨ws, v, hws, -, happend⟩ := exists_last_word ht hlast
    rw [happend w hw, hws, spaced_concat_append]

theorem length_words_append (hlast : ∀ c ∈ t.getLast?, isBlank c = false)
    (hne : w ≠ []) (hw : ∀ c ∈ w, isBlank c = false) :
    (words (t ++ w)).length = max (words t).length 1 := by
  by_cases ht : t = []
  · rw [ht, List.nil_append, words_of_forall hne hw]
    rfl
  · obtain ⟨ws, v, hws, -, happend⟩ := exists_last_word ht hlast
    rw [happend w hw, hws, List.length_append, List.length_append]
    exact (Nat.max_eq_left (Nat.le_add_left ..)).symm

/-- A text has no fewer words than its beginning. -/
theorem length_words_le_append (t m : List Char) :
    (words t).length ≤ (words (t ++ m)).length := by
  induction m using List.reverseRecOn with
  | nil => rw [List.append_nil]
  | append_singleton m c ih =>
    refine ih.trans ?_
    rw [← List.append_assoc]
    generalize t ++ m = u
    cases hc : isBlank c with
    | true => rw [words_concat_of_isBlank hc]
    | false =>
      have hone : ∀ x ∈ [c], isBlank x = false := by simpa using hc
      rcases List.eq_nil_or_concat u with rfl | ⟨v, b, rfl⟩
      · exact Nat.zero_le _
      · rw [List.concat_eq_append]
        cases hb : isBlank b with
        | true =>
          rw [words_concat_of_isBlank hb, List.append_assoc, List.singleton_append,
            words_append_cons hb, List.length_append]
          exact Nat.le_add_right ..
        | false =>
          rw [length_words_append (by simpa using hb) (List.cons_ne_nil c []) hone]
          exact Nat.le_max_left ..

theorem getLast?_spaced_words (hlast : ∀ c ∈ t.getLast?, isBlank c = false) :
    (spaced (words t)).getLast? = t.getLast? := by
  by_cases ht : t = []
  · rw [ht]
    rfl
  · obtain ⟨ws, w, hws, hw, -⟩ := exists_last_word ht hlast
    rcases List.eq_nil_or_concat w with rfl | ⟨v, c, rfl⟩
    · exact absurd (List.getLast?_eq_none_iff.mp hw.symm) ht
    · rw [hws, ← hw, List.concat_eq_append, spaced_concat_append, List.getLast?_concat,
        List.getLast?_concat]

end Almanac.Text
