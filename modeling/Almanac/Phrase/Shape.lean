import Almanac.Text.Blank
import Almanac.Text.Caseless
import Almanac.Text.Digit

/-!
# Shapes of phrases

A shape says how a phrase is put together: from words read up to case, blanks, numbers and words
to be kept, parts that may be left out, and choices. A shape is read from the left: a run of
blanks or digits goes as far as it can, a part that may be left out is read if it is there, and of
a choice the first member that can be read is taken.
-/

namespace Almanac.Phrase

open Text

/-- What a kept part of a phrase stands for. -/
inductive Field where
  | amount | unit | hour | minute | meridiem | weekday | month | day | year
  deriving DecidableEq, Repr

/-- The name of a field. -/
def Field.name : Field → String
  | .amount   => "amount"
  | .unit     => "unit"
  | .hour     => "hour"
  | .minute   => "minute"
  | .meridiem => "meridiem"
  | .weekday  => "weekday"
  | .month    => "month"
  | .day      => "day"
  | .year     => "year"

/-- The kept parts of a phrase, in order. -/
abbrev Captures := List (Field × List Char)

/-- How a phrase is put together. -/
inductive Shape where
  /-- A word or a mark. -/
  | word (w : String)
  /-- One or more blanks. -/
  | gap
  /-- Any number of blanks. -/
  | space
  /-- A number, kept, of at least `least` digits and at most `most`. -/
  | digits (f : Field) (least : Nat) (most : Option Nat)
  /-- One of some words, kept as it is written. -/
  | oneOf (f : Field) (ws : List String)
  | optional (s : Shape)
  | either (s t : Shape)
  | andThen (s t : Shape)
  deriving DecidableEq, Repr

instance : Append Shape := ⟨.andThen⟩

namespace Shape

/-! ### Reading -/

/-- The digits at the start of a text, as many as are allowed. -/
def leadingDigits (most : Option Nat) (t : List Char) : List Char :=
  match most with
  | none   => t.takeWhile isDigit
  | some n => (t.take n).takeWhile isDigit

/-- The first of some words with which a text starts: as it is written there, and what follows. -/
def leadingWord? : List String → List Char → Option (List Char × List Char)
  | [],      _ => none
  | w :: ws, t =>
    match dropWord? w.toList t with
    | some r => some (t.take w.toList.length, r)
    | none   => leadingWord? ws t

/-- Read a shape from the start of a text: what it keeps, and what follows. -/
def read? : Shape → List Char → Option (Captures × List Char)
  | .word w,              t => (dropWord? w.toList t).map ([], ·)
  | .gap,                 t => if t.takeWhile isBlank = [] then none else some ([], t.dropWhile isBlank)
  | .space,               t => some ([], t.dropWhile isBlank)
  | .digits f least most, t =>
    let ds := leadingDigits most t
    if ds.length < least then none else some ([(f, ds)], t.drop ds.length)
  | .oneOf f ws,          t => (leadingWord? ws t).map fun (w, r) => ([(f, w)], r)
  | .optional s,          t => some ((s.read? t).getD ([], t))
  | .either s u,          t => (s.read? t).or (u.read? t)
  | .andThen s u,         t =>
    (s.read? t).bind fun (c, r) => (u.read? r).map fun (d, r') => (c ++ d, r')

/-- Read a shape from a whole text. -/
def readAll? (s : Shape) (t : List Char) : Option Captures :=
  match s.read? t with
  | some (c, []) => some c
  | _            => none

@[simp] theorem append_def (s t : Shape) : s ++ t = .andThen s t := rfl

@[simp] theorem read?_word (w : String) (t : List Char) :
    (word w).read? t = (dropWord? w.toList t).map ([], ·) := rfl

@[simp] theorem read?_space (t : List Char) : space.read? t = some ([], t.dropWhile isBlank) := rfl

@[simp] theorem read?_optional (s : Shape) (t : List Char) :
    (optional s).read? t = some ((s.read? t).getD ([], t)) := rfl

@[simp] theorem read?_either (s u : Shape) (t : List Char) :
    (either s u).read? t = (s.read? t).or (u.read? t) := rfl

@[simp] theorem read?_andThen (s u : Shape) (t : List Char) :
    (andThen s u).read? t =
      (s.read? t).bind fun (c, r) => (u.read? r).map fun (d, r') => (c ++ d, r') := rfl

/-! ### Meaning -/

/-- `s.Reads t c` says that the whole of `t` can be split as the shape says, keeping `c`, however
    far its runs go and whichever members of its choices are taken. -/
inductive Reads : Shape → List Char → Captures → Prop
  | word {w : String} {t : List Char} (h : t.map caseless = w.toList) : Reads (.word w) t []
  | gap {t : List Char} (hne : t ≠ []) (h : ∀ c ∈ t, isBlank c = true) : Reads .gap t []
  | space {t : List Char} (h : ∀ c ∈ t, isBlank c = true) : Reads .space t []
  | digits {f : Field} {least : Nat} {most : Option Nat} {t : List Char}
      (h : ∀ c ∈ t, isDigit c = true) (hl : least ≤ t.length) (hm : ∀ n ∈ most, t.length ≤ n) :
      Reads (.digits f least most) t [(f, t)]
  | oneOf {f : Field} {ws : List String} {w : String} {t : List Char} (hw : w ∈ ws)
      (h : t.map caseless = w.toList) : Reads (.oneOf f ws) t [(f, t)]
  | skipped {s : Shape} : Reads (.optional s) [] []
  | taken {s : Shape} {t : List Char} {c : Captures} (h : Reads s t c) : Reads (.optional s) t c
  | left {s u : Shape} {t : List Char} {c : Captures} (h : Reads s t c) : Reads (.either s u) t c
  | right {s u : Shape} {t : List Char} {c : Captures} (h : Reads u t c) : Reads (.either s u) t c
  | andThen {s u : Shape} {t r : List Char} {c d : Captures} (hs : Reads s t c)
      (hu : Reads u r d) : Reads (.andThen s u) (t ++ r) (c ++ d)

/-! ### Fields and notation -/

/-- The fields that a shape may keep. -/
def fields : Shape → List Field
  | .word _       => []
  | .gap          => []
  | .space        => []
  | .digits f _ _ => [f]
  | .oneOf f _    => [f]
  | .optional s   => s.fields
  | .either s t   => s.fields ++ t.fields
  | .andThen s t  => s.fields ++ t.fields

/-- How often a digit may be repeated. -/
def countNotation (least : Nat) (most : Option Nat) : String :=
  match most with
  | none   => if least = 1 then "+" else s!"\x7b{least},\x7d"
  | some n => if least = n then s!"\x7b{least}\x7d" else s!"\x7b{least},{n}\x7d"

/-- A kept part with its name. -/
def keptNotation (f : Field) (part : String) : String :=
  s!"(?P<{f.name}>{part})"

/-- The pattern `p` of a member of a sequence. A choice is set in brackets there. -/
def memberNotation (s : Shape) (p : String) : String :=
  match s with
  | .either .. => "(?:" ++ p ++ ")"
  | _          => p

/-- The shape written as a pattern, as messages show it. -/
def pattern : Shape → String
  | .word w              => w
  | .gap                 => "\\s+"
  | .space               => "\\s*"
  | .digits f least most => keptNotation f ("\\d" ++ countNotation least most)
  | .oneOf f ws          => keptNotation f ("|".intercalate ws)
  | .optional s          =>
    match s with
    | .digits .. => s.pattern ++ "?"
    | .oneOf ..  => s.pattern ++ "?"
    | _          => "(?:" ++ s.pattern ++ ")?"
  | .either s t          => s.pattern ++ "|" ++ t.pattern
  | .andThen s t         => memberNotation s s.pattern ++ memberNotation t t.pattern

end Shape

end Almanac.Phrase
