import Almanac.Proofs.Phrase.Outline
import Mathlib.Data.List.TakeWhile

/-!
# Reading finds every split

A shape is read from the left, each part as far as it goes and without a second try. What is read
is always split as the shape says. The converse needs that no part can take away what a later part
needs, or be taken for a part that is left out; this is decided on outlines, with the outline of
everything that follows at hand.
-/

namespace Almanac.Phrase

open Text Outline

namespace Shape

/-! ### Outlines of shapes -/

/-- The outline of a word. -/
def lettersOutline : List Char → Outline
  | []     => .nothing
  | c :: w => .andThen (.one (kind c)) (lettersOutline w)

/-- The outline of one of some words. -/
def wordsOutline : List String → Outline
  | []      => .never
  | w :: ws => .either (lettersOutline w.toList) (wordsOutline ws)

/-- The outline of a number of characters of a kind, and no more. -/
def upTo (k : Kind) : Nat → Outline
  | 0     => .nothing
  | n + 1 => .either .nothing (.andThen (.one k) (upTo k n))

/-- The outline of a number of characters of a kind with something after them. -/
def exactly (k : Kind) (rest : Outline) : Nat → Outline
  | 0     => rest
  | n + 1 => .andThen (.one k) (exactly k rest n)

/-- The outline of a shape. -/
def outline : Shape → Outline
  | .word w              => lettersOutline w.toList
  | .gap                 => .andThen (.one .blank) (.run .blank)
  | .space               => .run .blank
  | .digits _ least most =>
    exactly .digit (match most with
      | none   => .run .digit
      | some n => upTo .digit (n - least)) least
  | .oneOf _ ws          => wordsOutline ws
  | .optional s          => .either s.outline .nothing
  | .either s u          => .either s.outline u.outline
  | .andThen s u         => .andThen s.outline u.outline

variable {s u : Shape} {t r : List Char} {c d : Captures} {K : Outline}

theorem holds_lettersOutline {w : List Char} (h : t.map caseless = w) :
    (lettersOutline w).Holds (t.map kind) := by
  induction t generalizing w with
  | nil =>
    subst h
    rfl
  | cons x t ih =>
    subst h
    exact ⟨[kind x], t.map kind, rfl, by rw [kind_caseless]; rfl, ih rfl⟩

theorem holds_wordsOutline {w : String} {ws : List String} (hw : w ∈ ws)
    (h : t.map caseless = w.toList) : (wordsOutline ws).Holds (t.map kind) := by
  induction ws with
  | nil => cases hw
  | cons v ws ih =>
    rcases List.mem_cons.mp hw with rfl | hw
    · exact .inl (holds_lettersOutline h)
    · exact .inr (ih hw)

theorem holds_upTo {k : Kind} {n : Nat} {w : List Kind} (h : ∀ x ∈ w, x = k) (hn : w.length ≤ n) :
    (upTo k n).Holds w := by
  induction n generalizing w with
  | zero => exact List.length_eq_zero_iff.mp (Nat.le_zero.mp hn)
  | succ n ih =>
    cases w with
    | nil => exact .inl rfl
    | cons x w =>
      refine .inr ⟨[x], w, rfl, ?_, ih (fun y hy => h y (List.mem_cons_of_mem x hy)) ?_⟩
      · rw [h x (List.mem_cons_self ..)]
        rfl
      · simpa using hn

theorem holds_exactly {k : Kind} {rest : Outline} {n : Nat} {w : List Kind}
    (h : ∀ x ∈ w.take n, x = k) (hn : n ≤ w.length) (hr : rest.Holds (w.drop n)) :
    (exactly k rest n).Holds w := by
  induction n generalizing w with
  | zero => exact hr
  | succ n ih =>
    cases w with
    | nil => simp at hn
    | cons x w =>
      refine ⟨[x], w, rfl, ?_, ih (fun y hy => h y ?_) (by simpa using hn) hr⟩
      · rw [h x (by simp)]
        rfl
      · exact List.mem_cons_of_mem x hy

/-- The kinds of the characters of a text that is split as a shape says have its outline. -/
theorem Reads.holds (h : s.Reads t c) : s.outline.Holds (t.map kind) := by
  induction h with
  | word h => exact holds_lettersOutline h
  | @gap t hne h =>
    cases t with
    | nil => exact absurd rfl hne
    | cons x t =>
      refine ⟨[kind x], t.map kind, rfl, ?_, ?_⟩
      · rw [kind_eq_blank (h x (List.mem_cons_self ..))]
        rfl
      · intro k hk
        obtain ⟨y, hy, rfl⟩ := List.mem_map.mp hk
        exact kind_eq_blank (h y (List.mem_cons_of_mem x hy))
  | space h =>
    intro k hk
    obtain ⟨y, hy, rfl⟩ := List.mem_map.mp hk
    exact kind_eq_blank (h y hy)
  | @digits f least most t h hl hm =>
    have hk : ∀ k ∈ t.map kind, k = .digit := by
      intro k hk
      obtain ⟨y, hy, rfl⟩ := List.mem_map.mp hk
      exact kind_eq_digit (h y hy)
    refine holds_exactly (fun k hk' => hk k (List.mem_of_mem_take hk')) (by simpa using hl) ?_
    cases most with
    | none => exact fun k hk' => hk k (List.mem_of_mem_drop hk')
    | some n =>
      refine holds_upTo (fun k hk' => hk k (List.mem_of_mem_drop hk')) ?_
      have := hm n rfl
      simp only [List.length_drop, List.length_map]
      omega
  | oneOf hw h => exact holds_wordsOutline hw h
  | skipped => exact .inr rfl
  | taken h ih => exact .inl ih
  | left h ih => exact .inl ih
  | right h ih => exact .inr ih
  | andThen hs hu ihs ihu => exact ⟨_, _, List.map_append, ihs, ihu⟩

/-! ### What is read is split as the shape says -/

theorem leadingDigits_append_drop (most : Option Nat) (t : List Char) :
    leadingDigits most t ++ t.drop (leadingDigits most t).length = t := by
  have h (p : List Char) (hp : p <+: t) : p ++ t.drop p.length = t := by
    obtain ⟨r, rfl⟩ := hp
    rw [List.drop_left]
  cases most with
  | none => exact h _ (List.takeWhile_prefix _)
  | some n => exact h _ ((List.takeWhile_prefix _).trans (List.take_prefix n t))

theorem isDigit_of_mem_leadingDigits {most : Option Nat} {x : Char}
    (h : x ∈ leadingDigits most t) : isDigit x = true := by
  cases most with
  | none => exact List.mem_takeWhile_imp h
  | some n => exact List.mem_takeWhile_imp h

theorem length_leadingDigits_le (n : Nat) (t : List Char) :
    (leadingDigits (some n) t).length ≤ n :=
  Nat.le_trans (List.takeWhile_prefix _).length_le (List.length_take_le n t)

theorem leadingWord?_eq_some {ws : List String} {w : List Char}
    (h : leadingWord? ws t = some (w, r)) :
    t = w ++ r ∧ ∃ v ∈ ws, w.map caseless = v.toList := by
  induction ws with
  | nil => cases h
  | cons v ws ih =>
    rw [leadingWord?] at h
    split at h
    · next r' hr =>
      obtain ⟨w', rfl, hw'⟩ := dropWord?_eq_some_iff.mp hr
      have hlen : v.toList.length = w'.length := by rw [← hw', List.length_map]
      simp only [hlen, List.take_left, Option.some.injEq, Prod.mk.injEq] at h
      obtain ⟨rfl, rfl⟩ := h
      exact ⟨rfl, v, List.mem_cons_self .., hw'⟩
    · obtain ⟨ht, u, hu, hw⟩ := ih h
      exact ⟨ht, u, List.mem_cons_of_mem v hu, hw⟩

/-- What a shape reads from the start of a text is split as it says. -/
theorem reads_of_read? (h : s.read? t = some (c, r)) : ∃ v, t = v ++ r ∧ s.Reads v c := by
  induction s generalizing t c r with
  | word w =>
    obtain ⟨r', hr, he⟩ := Option.map_eq_some_iff.mp h
    obtain ⟨rfl, rfl⟩ := Prod.mk.inj he
    obtain ⟨v, rfl, hv⟩ := dropWord?_eq_some_iff.mp hr
    exact ⟨v, rfl, .word hv⟩
  | gap =>
    rw [read?] at h
    split at h
    · cases h
    · next hne =>
      obtain ⟨rfl, rfl⟩ := Prod.mk.inj (Option.some.inj h)
      exact ⟨t.takeWhile isBlank, List.takeWhile_append_dropWhile.symm,
        .gap hne fun x hx => List.mem_takeWhile_imp hx⟩
  | space =>
    obtain ⟨rfl, rfl⟩ := Prod.mk.inj (Option.some.inj h)
    exact ⟨t.takeWhile isBlank, List.takeWhile_append_dropWhile.symm,
      .space fun x hx => List.mem_takeWhile_imp hx⟩
  | digits f least most =>
    rw [read?] at h
    split at h
    · cases h
    · next hlen =>
      obtain ⟨rfl, rfl⟩ := Prod.mk.inj (Option.some.inj h)
      refine ⟨leadingDigits most t, (leadingDigits_append_drop most t).symm,
        .digits (fun x hx => isDigit_of_mem_leadingDigits hx) (Nat.le_of_not_lt hlen) ?_⟩
      rintro n rfl
      exact length_leadingDigits_le n t
  | oneOf f ws =>
    obtain ⟨⟨w, r'⟩, hw, he⟩ := Option.map_eq_some_iff.mp h
    obtain ⟨rfl, rfl⟩ := Prod.mk.inj he
    obtain ⟨rfl, v, hv, hwv⟩ := leadingWord?_eq_some hw
    exact ⟨w, rfl, .oneOf hv hwv⟩
  | optional s ih =>
    rw [read?_optional] at h
    cases hs : s.read? t with
    | none =>
      rw [hs] at h
      obtain ⟨rfl, rfl⟩ := Prod.mk.inj (Option.some.inj h)
      exact ⟨[], rfl, .skipped⟩
    | some p =>
      rw [hs] at h
      obtain rfl : p = (c, r) := Option.some.inj h
      obtain ⟨v, rfl, hv⟩ := ih hs
      exact ⟨v, rfl, .taken hv⟩
  | either s u ihs ihu =>
    rw [read?_either] at h
    rcases Option.or_eq_some_iff.mp h with hs | ⟨-, hu⟩
    · obtain ⟨v, rfl, hv⟩ := ihs hs
      exact ⟨v, rfl, .left hv⟩
    · obtain ⟨v, rfl, hv⟩ := ihu hu
      exact ⟨v, rfl, .right hv⟩
  | andThen s u ihs ihu =>
    rw [read?_andThen] at h
    obtain ⟨⟨c₁, r₁⟩, hs, h⟩ := Option.bind_eq_some_iff.mp h
    obtain ⟨⟨c₂, r₂⟩, hu, he⟩ := Option.map_eq_some_iff.mp h
    obtain ⟨rfl, rfl⟩ := Prod.mk.inj he
    obtain ⟨v₁, rfl, hv₁⟩ := ihs hs
    obtain ⟨v₂, rfl, hv₂⟩ := ihu hu
    exact ⟨v₁ ++ v₂, (List.append_assoc ..).symm, .andThen hv₁ hv₂⟩

/-! ### Every split is read -/

/-- Whether a shape, followed by a text with outline `K`, can be read from the left without a second
    try: no run may go on into what follows, no word of a choice may be taken for a later one, and
    no part that is left out for what follows. -/
def isGreedy : Shape → Outline → Bool
  | .word _,             _ => true
  | .gap,                K => !K.firsts.contains .blank
  | .space,              K => !K.firsts.contains .blank
  | .digits _ least most, K => most == some least || !K.firsts.contains .digit
  | .oneOf _ ws,         K =>
    decide (ws.Pairwise fun v w =>
      (lettersOutline v.toList).isApart (.andThen (lettersOutline w.toList) K) = true)
  | .optional s,         K => s.isGreedy K && s.outline.isApart K
  | .either s u,         K =>
    s.isGreedy K && u.isGreedy K && s.outline.isApart (.andThen u.outline K)
  | .andThen s u,        K => s.isGreedy (.andThen u.outline K) && u.isGreedy K

/-- What follows starts with no character of a kind that its outline does not start with. -/
theorem not_mem_head? {p : Char → Bool} {k : Kind} (hp : ∀ x, p x = true → kind x = k)
    (hK : k ∉ K.firsts) (hr : K.Holds (r.map kind)) : ∀ x ∈ r.head?, p x ≠ true := by
  intro x hx hpx
  obtain ⟨r', rfl⟩ : ∃ r', r = x :: r' := by
    cases r with
    | nil => cases hx
    | cons y r' =>
      cases hx
      exact ⟨r', rfl⟩
  exact hK (hp x hpx ▸ mem_firsts_of_holds hr)

/-- A run of characters that pass a test ends before a character that does not. -/
theorem span_append {p : Char → Bool} (ht : ∀ x ∈ t, p x = true) (hr : ∀ x ∈ r.head?, p x ≠ true) :
    (t ++ r).takeWhile p = t ∧ (t ++ r).dropWhile p = r := by
  have hstop : r.takeWhile p = [] ∧ r.dropWhile p = r := by
    cases r with
    | nil => exact ⟨rfl, rfl⟩
    | cons x r =>
      have hx := hr x rfl
      exact ⟨List.takeWhile_cons_of_neg hx, List.dropWhile_cons_of_neg hx⟩
  rw [List.takeWhile_append_of_pos ht, List.dropWhile_append_of_pos ht, hstop.1, hstop.2]
  exact ⟨List.append_nil t, rfl⟩

/-- A number is read as far as it goes, unless a number of its length may follow it. -/
theorem leadingDigits_append {least : Nat} {most : Option Nat} (ht : ∀ x ∈ t, isDigit x = true)
    (hl : least ≤ t.length) (hm : ∀ n ∈ most, t.length ≤ n)
    (hr : most = some least ∨ ∀ x ∈ r.head?, isDigit x ≠ true) :
    leadingDigits most (t ++ r) = t := by
  cases most with
  | none =>
    rcases hr with hr | hr
    · cases hr
    · exact (span_append ht hr).1
  | some n =>
    have hn := hm n rfl
    rw [leadingDigits, List.take_append, List.take_of_length_le hn]
    refine (span_append ht ?_).1
    intro x hx
    rcases hr with hr | hr
    · -- the number already has as many digits as it may have
      obtain rfl := Option.some.inj hr
      rw [Nat.sub_eq_zero_of_le hl, List.take_zero] at hx
      cases hx
    · rw [List.head?_take] at hx
      split at hx
      · cases hx
      · exact hr x hx

/-- A shape that is apart from what follows reads nothing of it. -/
theorem read?_eq_none_of_isApart (h : s.outline.isApart K = true) (hr : K.Holds (r.map kind)) :
    s.read? r = none := by
  rw [Option.eq_none_iff_forall_ne_some]
  rintro ⟨c, r'⟩ hs
  obtain ⟨v, rfl, hv⟩ := reads_of_read? hs
  rw [List.map_append] at hr
  exact not_holds_append_of_isApart h hv.holds _ hr

theorem dropWord?_eq_none_of_isApart {w : List Char} (h : (lettersOutline w).isApart K = true)
    (hr : K.Holds (r.map kind)) : dropWord? w r = none := by
  rw [Option.eq_none_iff_forall_ne_some]
  intro r' hs
  obtain ⟨v, rfl, hv⟩ := dropWord?_eq_some_iff.mp hs
  rw [List.map_append] at hr
  exact not_holds_append_of_isApart h (holds_lettersOutline hv) _ hr

theorem leadingWord?_append {ws : List String} {w : String}
    (hws : ws.Pairwise fun v w =>
      (lettersOutline v.toList).isApart (.andThen (lettersOutline w.toList) K) = true)
    (hw : w ∈ ws) (ht : t.map caseless = w.toList) (hr : K.Holds (r.map kind)) :
    leadingWord? ws (t ++ r) = some (t, r) := by
  induction ws with
  | nil => cases hw
  | cons v ws ih =>
    rw [List.pairwise_cons] at hws
    rcases List.mem_cons.mp hw with rfl | hmem
    · have hd : dropWord? w.toList (t ++ r) = some r := dropWord?_eq_some_iff.mpr ⟨t, rfl, ht⟩
      have hlen : w.toList.length = t.length := by rw [← ht, List.length_map]
      simp only [leadingWord?, hd, hlen, List.take_left]
    · have hK : (Outline.andThen (lettersOutline w.toList) K).Holds ((t ++ r).map kind) :=
        ⟨t.map kind, r.map kind, List.map_append, holds_lettersOutline ht, hr⟩
      simp only [leadingWord?, dropWord?_eq_none_of_isApart (hws.1 w hmem) hK]
      exact ih hws.2 hmem

/-- A text that is split as a shape says is read as it was split, whatever follows it with the
    outline that the shape was found greedy for. -/
theorem Reads.read?_append (h : s.Reads t c) (hg : s.isGreedy K = true)
    (hr : K.Holds (r.map kind)) : s.read? (t ++ r) = some (c, r) := by
  induction h generalizing K r with
  | word h =>
    rw [read?_word, dropWord?_eq_some_iff.mpr ⟨_, rfl, h⟩]
    rfl
  | gap hne h =>
    have hK : Kind.blank ∉ K.firsts := by simpa [isGreedy] using hg
    obtain ⟨h₁, h₂⟩ := span_append h (not_mem_head? (fun _ => kind_eq_blank) hK hr)
    rw [read?, h₁, h₂, if_neg hne]
  | space h =>
    have hK : Kind.blank ∉ K.firsts := by simpa [isGreedy] using hg
    rw [read?_space, (span_append h (not_mem_head? (fun _ => kind_eq_blank) hK hr)).2]
  | @digits f least most t h hl hm =>
    have hd : leadingDigits most (t ++ r) = t := by
      refine leadingDigits_append h hl hm ?_
      simp only [isGreedy, Bool.or_eq_true, beq_iff_eq, Bool.not_eq_true', List.contains_eq_mem,
        decide_eq_false_iff_not] at hg
      exact hg.imp_right fun hK => not_mem_head? (fun _ => kind_eq_digit) hK hr
    rw [read?, hd, if_neg (Nat.not_lt.mpr hl), List.drop_left]
  | oneOf hw h =>
    have hws := of_decide_eq_true hg
    rw [read?, leadingWord?_append hws hw h hr]
    rfl
  | skipped =>
    rw [isGreedy, Bool.and_eq_true] at hg
    rw [read?_optional, List.nil_append, read?_eq_none_of_isApart hg.2 hr]
    rfl
  | taken h ih =>
    rw [isGreedy, Bool.and_eq_true] at hg
    rw [read?_optional, ih hg.1 hr]
    rfl
  | left h ih =>
    simp only [isGreedy, Bool.and_eq_true] at hg
    rw [read?_either, ih hg.1.1 hr]
    rfl
  | @right s u t c h ih =>
    simp only [isGreedy, Bool.and_eq_true] at hg
    have hK : (Outline.andThen u.outline K).Holds ((t ++ r).map kind) :=
      ⟨t.map kind, r.map kind, List.map_append, h.holds, hr⟩
    rw [read?_either, read?_eq_none_of_isApart hg.2 hK, ih hg.1.2 hr]
    rfl
  | @andThen s u t v c d hs hu ihs ihu =>
    rw [isGreedy, Bool.and_eq_true] at hg
    have hK : (Outline.andThen u.outline K).Holds ((v ++ r).map kind) :=
      ⟨v.map kind, r.map kind, List.map_append, hu.holds, hr⟩
    rw [read?_andThen, List.append_assoc, ihs hg.1 hK]
    show (u.read? (v ++ r)).map _ = _
    rw [ihu hg.2 hr]
    rfl

end Shape

end Almanac.Phrase
