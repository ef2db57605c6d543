import Almanac.Phrase.Row
import Almanac.Proofs.Text.Digit
import Mathlib.Data.List.Dedup

/-!
# Outlines of shapes

The outline of a shape forgets what is kept, and of each character all but its kind: a blank, a
digit, or a mark up to case. Outlines use finitely many kinds, so that it can be decided by a
search, kind by kind, whether two shapes have a text in common, and whether a text of the one
starts with a text of the other.
-/

namespace Almanac.Phrase

open Text

/-! ### Kinds of characters -/

/-- The kind of a character, as far as shapes tell characters apart. -/
inductive Kind where
  | blank
  | digit
  | mark (c : Char)
  deriving DecidableEq

/-- The kind of a character. -/
def kind (c : Char) : Kind :=
  if isBlank c then .blank else if isDigit c then .digit else .mark (caseless c)

theorem kind_eq_blank {c : Char} (h : isBlank c = true) : kind c = .blank := by
  simp [kind, h]

theorem kind_eq_digit {c : Char} (h : isDigit c = true) : kind c = .digit := by
  simp [kind, h, isBlank_of_isDigit h]

/-- A character is of the same kind as the letter that it stands for. -/
theorem kind_caseless (c : Char) : kind (caseless c) = kind c := by
  have hcap : ∀ n < 26, kind (caseless (Char.ofNat (65 + n))) = kind (Char.ofNat (65 + n)) := by
    decide +kernel
  by_cases hc : 'A' ≤ c ∧ c ≤ 'Z'
  · have h₁ : 65 ≤ c.toNat := hc.1
    have h₂ : c.toNat ≤ 90 := hc.2
    have he : Char.ofNat (65 + (c.toNat - 65)) = c := by
      rw [Nat.add_sub_cancel' h₁, Char.ofNat_toNat]
    exact he ▸ hcap (c.toNat - 65) (by omega)
  · simp only [caseless, if_neg hc]
    split
    · next h => subst h; decide +kernel
    · split
      · next h => subst h; decide +kernel
      · split
        · next h => rcases h with rfl | rfl <;> decide +kernel
        · rfl

/-! ### Outlines -/

/-- What kinds of characters a text has, in order. -/
inductive Outline where
  | never
  | nothing
  | one (k : Kind)
  /-- Any number of characters of a kind. -/
  | run (k : Kind)
  | either (a b : Outline)
  | andThen (a b : Outline)
  deriving DecidableEq

namespace Outline

/-- Whether a text with the given kinds of characters has an outline. -/
def Holds : Outline → List Kind → Prop
  | .never,       _ => False
  | .nothing,     w => w = []
  | .one k,       w => w = [k]
  | .run k,       w => ∀ x ∈ w, x = k
  | .either a b,  w => a.Holds w ∨ b.Holds w
  | .andThen a b, w => ∃ u v, w = u ++ v ∧ a.Holds u ∧ b.Holds v

/-- Whether the empty text has an outline. -/
def canEnd : Outline → Bool
  | .never       => false
  | .nothing     => true
  | .one _       => false
  | .run _       => true
  | .either a b  => a.canEnd || b.canEnd
  | .andThen a b => a.canEnd && b.canEnd

/-- The kinds with which a text of an outline can start. -/
def firsts : Outline → List Kind
  | .never       => []
  | .nothing     => []
  | .one k       => [k]
  | .run k       => [k]
  | .either a b  => a.firsts ++ b.firsts
  | .andThen a b => if a.canEnd then a.firsts ++ b.firsts else a.firsts

/-- One outline after another. -/
def followedBy : Outline → Outline → Outline
  | .nothing, b => b
  | a,        b => .andThen a b

/-- The outlines of what may follow a first character of a kind. -/
def after (k : Kind) : Outline → List Outline
  | .never       => []
  | .nothing     => []
  | .one j       => if j = k then [.nothing] else []
  | .run j       => if j = k then [.run j] else []
  | .either a b  => a.after k ++ b.after k
  | .andThen a b =>
    (a.after k).map (·.followedBy b) ++ if a.canEnd then b.after k else []

variable {a b : Outline} {k : Kind} {w : List Kind}

theorem holds_followedBy : (a.followedBy b).Holds w ↔ (andThen a b).Holds w := by
  cases a with
  | nothing =>
    constructor
    · intro h
      exact ⟨[], w, rfl, rfl, h⟩
    · rintro ⟨u, v, rfl, rfl, h⟩
      exact h
  | _ => rfl

theorem canEnd_of_holds (h : a.Holds []) : a.canEnd = true := by
  induction a with
  | never => exact h.elim
  | nothing => rfl
  | one k => cases h
  | run k => rfl
  | either a b iha ihb => exact Bool.or_eq_true_iff.mpr (h.imp iha ihb)
  | andThen a b iha ihb =>
    obtain ⟨u, v, huv, ha, hb⟩ := h
    obtain ⟨rfl, rfl⟩ := List.append_eq_nil_iff.mp huv.symm
    exact Bool.and_eq_true_iff.mpr ⟨iha ha, ihb hb⟩

theorem mem_firsts_of_holds (h : a.Holds (k :: w)) : k ∈ a.firsts := by
  induction a generalizing w with
  | never => exact h.elim
  | nothing => cases h
  | one j =>
    cases h
    exact List.mem_singleton_self k
  | run j => exact List.mem_singleton.mpr (h k (List.mem_cons_self ..))
  | either a b iha ihb =>
    rw [firsts, List.mem_append]
    exact h.imp iha ihb
  | andThen a b iha ihb =>
    obtain ⟨u, v, huv, ha, hb⟩ := h
    rw [firsts]
    cases u with
    | nil =>
      rw [if_pos (canEnd_of_holds ha), List.mem_append]
      rw [List.nil_append] at huv
      exact .inr (ihb (huv ▸ hb))
    | cons x u =>
      obtain ⟨rfl, rfl⟩ := List.cons.inj huv
      split
      · exact List.mem_append_left _ (iha ha)
      · exact iha ha

/-- What follows the first character of a text has one of the outlines for it. -/
theorem exists_after_of_holds (h : a.Holds (k :: w)) : ∃ b ∈ a.after k, b.Holds w := by
  induction a generalizing w with
  | never => exact h.elim
  | nothing => cases h
  | one j =>
    cases h
    exact ⟨.nothing, by simp [after], rfl⟩
  | run j =>
    have hk : k = j := h k (List.mem_cons_self ..)
    refine ⟨.run j, by simp [after, hk], ?_⟩
    intro x hx
    exact h x (List.mem_cons_of_mem k hx)
  | either a b iha ihb =>
    rw [after]
    rcases h with h | h
    · obtain ⟨c, hc, hw⟩ := iha h
      exact ⟨c, List.mem_append_left _ hc, hw⟩
    · obtain ⟨c, hc, hw⟩ := ihb h
      exact ⟨c, List.mem_append_right _ hc, hw⟩
  | andThen a b iha ihb =>
    obtain ⟨u, v, huv, ha, hb⟩ := h
    rw [after]
    cases u with
    | nil =>
      rw [List.nil_append] at huv
      obtain ⟨c, hc, hw⟩ := ihb (huv ▸ hb)
      rw [if_pos (canEnd_of_holds ha)]
      exact ⟨c, List.mem_append_right _ hc, hw⟩
    | cons x u =>
      obtain ⟨rfl, rfl⟩ := List.cons.inj huv
      obtain ⟨c, hc, hu⟩ := iha ha
      exact ⟨c.followedBy b, List.mem_append_left _ (List.mem_map_of_mem hc),
        holds_followedBy.mpr ⟨u, v, rfl, hu, hb⟩⟩

/-! ### Searching for a common text -/

/-- Search for a text of one of the outlines `as` that is a text of one of `bs`, or only the start
    of one unless it has to be the `whole`. A step that leads back to where it started is not
    taken. The search gives up, and says that there may be such a text, after so many steps. -/
def mayMeet (whole : Bool) : Nat → List Outline → List Outline → Bool
  | 0,     _,  _  => true
  | n + 1, as, bs =>
    (as.any canEnd && (!whole || bs.any canEnd)) ||
      (as.flatMap firsts).dedup.any fun k =>
        let as' := as.flatMap (after k)
        let bs' := bs.flatMap (after k)
        !bs'.isEmpty && !decide (as' = as ∧ bs' = bs) && mayMeet whole n as' bs'

/-- If the search finds nothing, there is nothing to be found. -/
theorem not_holds_of_mayMeet {whole : Bool} {n : Nat} {as bs : List Outline} {u v : List Kind}
    (hn : mayMeet whole n as bs = false) (hv : whole = true → v = [])
    (ha : ∃ a ∈ as, a.Holds u) (hb : ∃ b ∈ bs, b.Holds (u ++ v)) : False := by
  induction n generalizing as bs u with
  | zero => cases hn
  | succ n ih =>
    -- a step back to the same outlines has read one character less of `u`
    induction u with
    | nil =>
      obtain ⟨a, has, ha⟩ := ha
      obtain ⟨b, hbs, hb⟩ := hb
      have h₁ : as.any canEnd = true := List.any_eq_true.mpr ⟨a, has, canEnd_of_holds ha⟩
      simp only [mayMeet, h₁, Bool.true_and, Bool.or_eq_false_iff] at hn
      cases whole with
      | false => simp at hn
      | true =>
        rw [hv rfl] at hb
        have h₂ : bs.any canEnd = true := List.any_eq_true.mpr ⟨b, hbs, canEnd_of_holds hb⟩
        simp [h₂] at hn
    | cons k u ihu =>
      obtain ⟨a, has, ha⟩ := ha
      obtain ⟨b, hbs, hb⟩ := hb
      obtain ⟨a', ha', hu⟩ := exists_after_of_holds ha
      obtain ⟨b', hb', huv⟩ := exists_after_of_holds (w := u ++ v) hb
      have hk : k ∈ (as.flatMap firsts).dedup :=
        List.mem_dedup.mpr (List.mem_flatMap.mpr ⟨a, has, mem_firsts_of_holds ha⟩)
      have hamem : a' ∈ as.flatMap (after k) := List.mem_flatMap.mpr ⟨a, has, ha'⟩
      have hbmem : b' ∈ bs.flatMap (after k) := List.mem_flatMap.mpr ⟨b, hbs, hb'⟩
      by_cases hsame : as.flatMap (after k) = as ∧ bs.flatMap (after k) = bs
      · exact ihu ⟨a', hsame.1 ▸ hamem, hu⟩ ⟨b', hsame.2 ▸ hbmem, huv⟩
      · have hstep := hn
        rw [mayMeet, Bool.or_eq_false_iff, List.any_eq_false] at hstep
        have hnext := hstep.2 k hk
        have hne : (bs.flatMap (after k)).isEmpty = false :=
          List.isEmpty_eq_false_iff.mpr (List.ne_nil_of_mem hbmem)
        simp only [hne, hsame, decide_false, Bool.not_false, Bool.true_and,
          Bool.not_eq_true] at hnext
        exact ih hnext ⟨a', hamem, hu⟩ ⟨b', hbmem, huv⟩

/-- How many steps a search takes at most. -/
def searchDepth : Nat := 64

/-- Whether the search shows that two outlines have no text in common. -/
def isDisjoint (a b : Outline) : Bool :=
  !mayMeet true searchDepth [a] [b]

/-- Whether the search shows that no text of `b` starts with a text of `a`. -/
def isApart (a b : Outline) : Bool :=
  !mayMeet false searchDepth [a] [b]

theorem not_holds_of_isDisjoint (h : a.isDisjoint b = true) (ha : a.Holds w) : ¬ b.Holds w := by
  intro hb
  have hs : mayMeet true searchDepth [a] [b] = false := by simpa [isDisjoint] using h
  refine not_holds_of_mayMeet (v := []) hs (fun _ => rfl)
    ⟨a, List.mem_singleton_self a, ha⟩ ⟨b, List.mem_singleton_self b, ?_⟩
  rwa [List.append_nil]

theorem not_holds_append_of_isApart (h : a.isApart b = true) (ha : a.Holds w) (v : List Kind) :
    ¬ b.Holds (w ++ v) := by
  intro hb
  have hs : mayMeet false searchDepth [a] [b] = false := by simpa [isApart] using h
  exact not_holds_of_mayMeet hs (fun hw => by cases hw)
    ⟨a, List.mem_singleton_self a, ha⟩ ⟨b, List.mem_singleton_self b, hb⟩

end Outline

end Almanac.Phrase
