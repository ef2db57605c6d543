/-!
# Words up to case

The words of a phrase are read without regard to case. Beside the capital letters this lets four
characters stand for small letters: the long s, the kelvin sign, and the capital i with a dot and
the small i without one.
-/

namespace Almanac.Text

/-- The small letter that a character stands for in a word; any other character is kept. -/
def caseless (c : Char) : Char :=
  if 'A' ≤ c ∧ c ≤ 'Z' then Char.ofNat (c.toNat + 32)
  else if c = 'ſ' then 's'
  else if c = '\u212A' then 'k'
  else if c = 'İ' ∨ c = 'ı' then 'i'
  else c

/-- What is left of a text that starts with the word `w`, up to case. -/
def dropWord? : List Char → List Char → Option (List Char)
  | [],     t      => some t
  | _ :: _, []     => none
  | l :: w, c :: t => if caseless c = l then dropWord? w t else none

@[simp] theorem dropWord?_nil (t : List Char) : dropWord? [] t = some t := rfl

@[simp] theorem dropWord?_cons_nil (l : Char) (w : List Char) : dropWord? (l :: w) [] = none := rfl

@[simp] theorem dropWord?_cons_cons (l c : Char) (w t : List Char) :
    dropWord? (l :: w) (c :: t) = if caseless c = l then dropWord? w t else none := rfl

/-- Reading a word takes exactly a part of the text that is the word up to case. -/
theorem dropWord?_eq_some_iff {w t r : List Char} :
    dropWord? w t = some r ↔ ∃ v, t = v ++ r ∧ v.map caseless = w := by
  induction w generalizing t with
  | nil => simp [eq_comm]
  | cons l w ih =>
    cases t with
    | nil => simp
    | cons c t =>
      simp only [dropWord?_cons_cons]
      split
      · next h =>
        rw [ih]
        constructor
        · rintro ⟨v, rfl, rfl⟩
          exact ⟨c :: v, rfl, by simp [h]⟩
        · rintro ⟨v, hv, hw⟩
          cases v with
          | nil => simp at hw
          | cons d v =>
            simp only [List.map_cons, List.cons.injEq, List.cons_append] at hv hw
            exact ⟨v, hv.2, hw.2⟩
      · next h =>
        simp only [reduceCtorEq, false_iff, not_exists, not_and]
        intro v hv hw
        cases v with
        | nil => simp at hw
        | cons d v =>
          simp only [List.map_cons, List.cons.injEq, List.cons_append] at hv hw
          exact h (hv.1 ▸ hw.1)

end Almanac.Text
