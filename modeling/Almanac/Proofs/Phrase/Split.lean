import Almanac.Proofs.Phrase.Table

/-!
# Ways to split a text

That a text can be split as a shape says is recorded in full: which characters each part takes,
which parts are there, and which member of each choice. What a split keeps and which text it makes
up are computed from the record. Of a row's shape, a text has one record at most; so what is kept
of a phrase depends on the phrase alone, however far runs go and whichever members of choices are
tried first.
-/

namespace Almanac.Phrase

open Text

variable {s u : Shape} {t r r' : List Char} {c : Captures} {K : Outline}

/-- A way to split a text as a shape says. -/
inductive Split : Shape → Type
  | word {w : String} (t : List Char) (h : t.map caseless = w.toList) : Split (.word w)
  | gap (t : List Char) (hne : t ≠ []) (h : ∀ c ∈ t, isBlank c = true) : Split .gap
  | space (t : List Char) (h : ∀ c ∈ t, isBlank c = true) : Split .space
  | digits {f : Field} {least : Nat} {most : Option Nat} (t : List Char)
      (h : ∀ c ∈ t, isDigit c = true) (hl : least ≤ t.length) (hm : ∀ n ∈ most, t.length ≤ n) :
      Split (.digits f least most)
  | oneOf {f : Field} {ws : List String} (w : String) (hw : w ∈ ws) (t : List Char)
      (h : t.map caseless = w.toList) : Split (.oneOf f ws)
  | skipped {s : Shape} : Split (.optional s)
  | taken {s : Shape} (p : Split s) : Split (.optional s)
  | left {s u : Shape} (p : Split s) : Split (.either s u)
  | right {s u : Shape} (p : Split u) : Split (.either s u)
  | andThen {s u : Shape} (p : Split s) (q : Split u) : Split (.andThen s u)

namespace Split

/-- The text that is split. -/
def text : {s : Shape} → Split s → List Char
  | _, .word t _       => t
  | _, .gap t _ _      => t
  | _, .space t _      => t
  | _, .digits t _ _ _ => t
  | _, .oneOf _ _ t _  => t
  | _, .skipped        => []
  | _, .taken p        => p.text
  | _, .left p         => p.text
  | _, .right p        => p.text
  | _, .andThen p q    => p.text ++ q.text

/-- What is kept of the text. -/
def captures : {s : Shape} → Split s → Captures
  | _, .word _ _                   => []
  | _, .gap _ _ _                  => []
  | _, .space _ _                  => []
  | .digits f _ _, .digits t _ _ _ => [(f, t)]
  | .oneOf f _, .oneOf _ _ t _     => [(f, t)]
  | _, .skipped                    => []
  | _, .taken p                    => p.captures
  | _, .left p                     => p.captures
  | _, .right p                    => p.captures
  | _, .andThen p q                => p.captures ++ q.captures

theorem reads (p : Split s) : s.Reads p.text p.captures := by
  induction p with
  | word t h => exact .word h
  | gap t hne h => exact .gap hne h
  | space t h => exact .space h
  | digits t h hl hm => exact .digits h hl hm
  | oneOf w hw t h => exact .oneOf hw h
  | skipped => exact .skipped
  | taken p ih => exact .taken ih
  | left p ih => exact .left ih
  | right p ih => exact .right ih
  | andThen p q ihp ihq => exact .andThen ihp ihq

theorem exists_of_reads (h : s.Reads t c) : ∃ p : Split s, p.text = t ∧ p.captures = c := by
  induction h with
  | word h => exact ⟨.word _ h, rfl, rfl⟩
  | gap hne h => exact ⟨.gap _ hne h, rfl, rfl⟩
  | space h => exact ⟨.space _ h, rfl, rfl⟩
  | digits h hl hm => exact ⟨.digits _ h hl hm, rfl, rfl⟩
  | oneOf hw h => exact ⟨.oneOf _ hw _ h, rfl, rfl⟩
  | skipped => exact ⟨.skipped, rfl, rfl⟩
  | taken _ ih =>
    obtain ⟨p, rfl, rfl⟩ := ih
    exact ⟨.taken p, rfl, rfl⟩
  | left _ ih =>
    obtain ⟨p, rfl, rfl⟩ := ih
    exact ⟨.left p, rfl, rfl⟩
  | right _ ih =>
    obtain ⟨p, rfl, rfl⟩ := ih
    exact ⟨.right p, rfl, rfl⟩
  | andThen _ _ ihs ihu =>
    obtain ⟨p, rfl, rfl⟩ := ihs
    obtain ⟨q, rfl, rfl⟩ := ihu
    exact ⟨.andThen p q, rfl, rfl⟩

/-! ### One split at most -/

/-- What follows a split, with an outline that the shape is greedy for, is the same for every split
    of the text before it. -/
theorem rest_eq (p q : Split s) (hg : s.isGreedy K = true) (hr : K.Holds (r.map kind))
    (hr' : K.Holds (r'.map kind)) (h : p.text ++ r = q.text ++ r') : r = r' := by
  have hp := p.reads.read?_append hg hr
  have hq := q.reads.read?_append hg hr'
  rw [h, hq, Option.some.injEq, Prod.mk.injEq] at hp
  exact hp.2.symm

theorem text_eq (p q : Split s) (hg : s.isGreedy K = true) (hr : K.Holds (r.map kind))
    (hr' : K.Holds (r'.map kind)) (h : p.text ++ r = q.text ++ r') : p.text = q.text := by
  obtain rfl := rest_eq p q hg hr hr' h
  exact List.append_cancel_right h

theorem holds_append (p : Split s) (hr : K.Holds (r.map kind)) :
    (Outline.andThen s.outline K).Holds ((p.text ++ r).map kind) :=
  ⟨p.text.map kind, r.map kind, List.map_append, p.reads.holds, hr⟩

/-- What is apart from a shape does not begin with a text of the shape. -/
theorem ne_append_of_isApart (p : Split s) (h : s.outline.isApart K = true)
    (ht : K.Holds (t.map kind)) : t ≠ p.text ++ r := by
  rintro rfl
  rw [List.map_append] at ht
  exact Outline.not_holds_append_of_isApart h p.reads.holds _ ht

/-- Two splits of the start of a text are the same, if the shape is greedy for what follows. -/
theorem eq_of_append_eq (p q : Split s) (hg : s.isGreedy K = true) (hr : K.Holds (r.map kind))
    (hr' : K.Holds (r'.map kind)) (h : p.text ++ r = q.text ++ r') : p = q := by
  induction p generalizing K r r' with
  | word t ht =>
    have htext := text_eq _ q hg hr hr' h
    cases q with
    | word t' ht' =>
      obtain rfl : t = t' := htext
      rfl
  | gap t hne ht =>
    have htext := text_eq _ q hg hr hr' h
    cases q with
    | gap t' hne' ht' =>
      obtain rfl : t = t' := htext
      rfl
  | space t ht =>
    have htext := text_eq _ q hg hr hr' h
    cases q with
    | space t' ht' =>
      obtain rfl : t = t' := htext
      rfl
  | digits t ht hl hm =>
    have htext := text_eq _ q hg hr hr' h
    cases q with
    | digits t' ht' hl' hm' =>
      obtain rfl : t = t' := htext
      rfl
  | oneOf w hw t ht =>
    have htext := text_eq _ q hg hr hr' h
    cases q with
    | oneOf w' hw' t' ht' =>
      obtain rfl : t = t' := htext
      obtain rfl : w = w' := String.toList_injective (ht.symm.trans ht')
      rfl
  | skipped =>
    rw [Shape.isGreedy, Bool.and_eq_true] at hg
    cases q with
    | skipped => rfl
    | taken q => exact absurd h (q.ne_append_of_isApart hg.2 hr)
  | taken p ih =>
    rw [Shape.isGreedy, Bool.and_eq_true] at hg
    cases q with
    | skipped => exact absurd h.symm (p.ne_append_of_isApart hg.2 hr')
    | taken q => rw [ih q hg.1 hr hr' h]
  | left p ih =>
    simp only [Shape.isGreedy, Bool.and_eq_true] at hg
    cases q with
    | left q => rw [ih q hg.1.1 hr hr' h]
    | right q => exact absurd h.symm (p.ne_append_of_isApart hg.2 (q.holds_append hr'))
  | right p ih =>
    simp only [Shape.isGreedy, Bool.and_eq_true] at hg
    cases q with
    | left q => exact absurd h (q.ne_append_of_isApart hg.2 (p.holds_append hr))
    | right q => rw [ih q hg.1.2 hr hr' h]
  | andThen p₁ p₂ ih₁ ih₂ =>
    rw [Shape.isGreedy, Bool.and_eq_true] at hg
    cases q with
    | andThen q₁ q₂ =>
      -- the second parts stand before the same rest once the first parts are known to be the same
      simp only [text, List.append_assoc] at h
      obtain rfl := ih₁ q₁ hg.1 (p₂.holds_append hr) (q₂.holds_append hr') h
      rw [ih₂ q₂ hg.2 hr hr' (List.append_cancel_left h)]

end Split

theorem Row.text_injective (row : Row) :
    Function.Injective (Split.text : Split row.shape → List Char) := by
  intro p q h
  have hend : Outline.nothing.Holds (([] : List Char).map kind) := rfl
  have hnil : p.text ++ [] = q.text ++ [] := by rw [h]
  exact Split.eq_of_append_eq p q row.isGreedy_shape hend hend hnil

/-- **A row reads what can be split as its shape says, and there is one way to split it.** A row
    reads a text exactly if there is a split of it, no text has two, and what is kept of the text is
    what the split keeps. -/
theorem Row.readAll?_iff_split (row : Row) :
    (∀ t, (row.shape.readAll? t).isSome = true ↔ ∃ p : Split row.shape, p.text = t) ∧
      Function.Injective (Split.text : Split row.shape → List Char) ∧
      ∀ t c, row.shape.readAll? t = some c ↔ ∃ p : Split row.shape, p.text = t ∧ p.captures = c := by
  have hread (t : List Char) (c : Captures) :
      row.shape.readAll? t = some c ↔ ∃ p : Split row.shape, p.text = t ∧ p.captures = c := by
    rw [readAll?_eq_some_iff]
    constructor
    · exact Split.exists_of_reads
    · rintro ⟨p, rfl, rfl⟩
      exact p.reads
  refine ⟨?_, row.text_injective, hread⟩
  intro t
  rw [Option.isSome_iff_exists]
  constructor
  · rintro ⟨c, hc⟩
    obtain ⟨p, hp, -⟩ := (hread t c).mp hc
    exact ⟨p, hp⟩
  · rintro ⟨p, hp⟩
    exact ⟨p.captures, (hread t p.captures).mpr ⟨p, hp, rfl⟩⟩

end Almanac.Phrase
