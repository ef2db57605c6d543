/-!
# Blank characters

Blank characters separate words: the controls from tab to carriage return and from the file
separator to the unit separator, the next-line control, and the space separators and line and
paragraph separators of Unicode. A text is trimmed at its ends and cut into words by them.
-/

namespace Almanac.Text

/-- Whether a character separates words. -/
def isBlank (c : Char) : Bool :=
  let n := c.toNat
  (9 ≤ n && n ≤ 13) || (28 ≤ n && n ≤ 32) || n == 0x85 || n == 0xA0 || n == 0x1680 ||
    (0x2000 ≤ n && n ≤ 0x200A) || n == 0x2028 || n == 0x2029 || n == 0x202F || n == 0x205F ||
    n == 0x3000

/-! ### Trimming -/

/-- A text without the characters in `drop` at its end. -/
def trimEnd (drop : Char → Bool) : List Char → List Char
  | []     => []
  | c :: t =>
    match trimEnd drop t with
    | [] => if drop c then [] else [c]
    | t' => c :: t'

/-- A text without blanks at either end. -/
def trim (t : List Char) : List Char :=
  trimEnd isBlank (t.dropWhile isBlank)

@[simp] theorem trimEnd_nil (drop : Char → Bool) : trimEnd drop [] = [] := rfl

theorem trimEnd_cons (drop : Char → Bool) (c : Char) (t : List Char) :
    trimEnd drop (c :: t) =
      if trimEnd drop t = [] then (if drop c then [] else [c]) else c :: trimEnd drop t := by
  cases h : trimEnd drop t <;> simp [trimEnd, h]

/-! ### Words -/

/-- The maximal runs of characters that are not blank, in order. -/
def words : List Char → List (List Char)
  | []     => []
  | c :: t =>
    if isBlank c then words t
    else
      match t with
      | []     => [[c]]
      | d :: _ =>
        if isBlank d then [c] :: words t
        else
          match words t with
          | []      => [[c]]
          | w :: ws => (c :: w) :: ws

/-- Words set apart by single spaces. -/
def spaced : List (List Char) → List Char
  | []           => []
  | [w]          => w
  | w :: v :: ws => w ++ ' ' :: spaced (v :: ws)

@[simp] theorem spaced_nil : spaced [] = [] := rfl

@[simp] theorem spaced_singleton (w : List Char) : spaced [w] = w := rfl

@[simp] theorem spaced_cons_cons (w v : List Char) (ws : List (List Char)) :
    spaced (w :: v :: ws) = w ++ ' ' :: spaced (v :: ws) := rfl

end Almanac.Text
