import Almanac.Json.Value
import Almanac.Text.Numeral
import Almanac.Text.Surrogate

/-!
# Reading JSON

A reader works on what is left of a text, so it fails with the part of the text at which it
stopped; the position of the failure is how much of the text came before. Beyond the standard,
the numbers that are infinite or no number have names, and strings may hold surrogates that stand
alone. Of members with one name the last counts. How deep values are nested is limited.
-/

namespace Almanac.Json

open Text

/-- Why reading stopped. -/
inductive Halt where
  /-- What is left of the text cannot go on like this. -/
  | stuck (left : List CodePoint)
  /-- A whole number has too many digits. -/
  | longNumeral
  /-- Values are nested too deep. -/
  | tooDeep
  deriving DecidableEq, Repr

/-- A reader takes a value from the start of a text and leaves the rest. -/
abbrev Reader (α : Type) := List CodePoint → Except Halt (α × List CodePoint)

/-- The blanks between the parts of a JSON text. -/
def isSpace : CodePoint → Bool
  | .char c    => c == ' ' || c == '\t' || c == '\n' || c == '\r'
  | .surrogate => false

/-- A text without the blanks at its start. -/
def skip (t : List CodePoint) : List CodePoint :=
  t.dropWhile isSpace

/-! ### Strings -/

/-- The value of a hexadecimal digit of either case. -/
def hexValue? : CodePoint → Option Nat
  | .char c    =>
    if '0' ≤ c ∧ c ≤ '9' then some (c.toNat - 48)
    else if 'a' ≤ c ∧ c ≤ 'f' then some (c.toNat - 87)
    else if 'A' ≤ c ∧ c ≤ 'F' then some (c.toNat - 55)
    else none
  | .surrogate => none

/-- The value of four hexadecimal digits. -/
def hexValue4? (a b c d : CodePoint) : Option Nat := do
  let a ← hexValue? a
  let b ← hexValue? b
  let c ← hexValue? c
  let d ← hexValue? d
  some (4096 * a + 256 * b + 16 * c + d)

/-- The character that an escape of one letter stands for. -/
def escaped? : CodePoint → Option Char
  | .char '"'  => some '"'
  | .char '\\' => some '\\'
  | .char '/'  => some '/'
  | .char 'b'  => some '\x08'
  | .char 'f'  => some '\x0c'
  | .char 'n'  => some '\n'
  | .char 'r'  => some '\r'
  | .char 't'  => some '\t'
  | _          => none

/-- A code unit in front of the others of a string, if those are known. -/
def unitBefore (u : Nat) (p : Option (List Nat) × List CodePoint) :
    Option (List Nat) × List CodePoint :=
  (p.1.map (u :: ·), p.2)

/-- The code units of a string after its opening quote, which is where `opening` starts. They are
    not known if a surrogate stands among them as it is, since it makes no pair with any other.
    Something has to follow an escape by number. -/
def stringUnits (opening : List CodePoint) : Reader (Option (List Nat))
  | [] => .error (.stuck opening)
  | .surrogate :: t => (stringUnits opening t).map fun (_, r) => (none, r)
  | .char c :: t =>
    if c = '"' then .ok (some [], t)
    else if c = '\\' then
      match t with
      | [] => .error (.stuck opening)
      | e :: t' =>
        if e = .char 'u' then
          match t' with
          | h₁ :: h₂ :: h₃ :: h₄ :: n :: r =>
            match hexValue4? h₁ h₂ h₃ h₄ with
            | some u => (stringUnits opening (n :: r)).map (unitBefore u)
            | none   => .error (.stuck (e :: t'))
          | _ => .error (.stuck (e :: t'))
        else
          match escaped? e with
          | some d => (stringUnits opening t').map (unitBefore d.toNat)
          | none   => .error (.stuck (.char c :: t))
    else if c.toNat < 32 then .error (.stuck (.char c :: t))
    else (stringUnits opening t).map (unitBefore c.toNat)

/-- A string after its opening quote, if it is text. -/
def string? (t : List CodePoint) : Except Halt (Option String × List CodePoint) :=
  (stringUnits (.char '"' :: t) t).map fun (us, r) => ((us.bind joinUnits?).map String.ofList, r)

/-! ### Numbers -/

/-- Whether a character is a digit of a number. -/
def isNumberDigit (c : Char) : Bool :=
  '0' ≤ c && c ≤ '9'

/-- The digits at the start of a text, and what follows. -/
def leadingDigits : List CodePoint → List Char × List CodePoint
  | .char c :: t =>
    if isNumberDigit c then
      let (ds, r) := leadingDigits t
      (c :: ds, r)
    else ([], .char c :: t)
  | t => ([], t)

/-- The digits before the point: a lone zero, or digits that start with another one. -/
def wholePart : List CodePoint → List Char × List CodePoint
  | .char '0' :: t => (['0'], t)
  | t              => leadingDigits t

/-- The digits after a point, if there are any. -/
def fractionPart : List CodePoint → List Char × List CodePoint
  | .char '.' :: t =>
    match leadingDigits t with
    | ([], _) => ([], .char '.' :: t)
    | (ds, r) => (ds, r)
  | t => ([], t)

/-- A text without the sign at its start, and whether that is a minus. -/
def signPart : List CodePoint → Bool × List CodePoint
  | .char '-' :: t => (true, t)
  | .char '+' :: t => (false, t)
  | t              => (false, t)

/-- The exponent of a number, if there is one. -/
def exponentPart : List CodePoint → Option Int × List CodePoint
  | .char c :: t =>
    let (negative, t') := signPart t
    match leadingDigits t' with
    | ([], _) => (none, .char c :: t)
    | (ds, r) =>
      if c = 'e' ∨ c = 'E' then
        let n : Int := digitsValue ds
        (some (if negative then -n else n), r)
      else (none, .char c :: t)
  | t => (none, t)

/-- A number. Without fraction and exponent it is a whole number. -/
def number : Reader Json := fun t =>
  let (negative, r) := match t with
    | .char '-' :: r => (true, r)
    | _              => (false, t)
  match wholePart r with
  | ([], _) => .error (.stuck t)
  | (whole, r) =>
    let (fraction, r) := fractionPart r
    let (exponent, r) := exponentPart r
    if fraction = [] ∧ exponent = none then
      match readDigits whole with
      | .ok n    => .ok (.int (if negative then -(n : Int) else n), r)
      | .error _ => .error .longNumeral
    else
      let scale := exponent.getD 0 - fraction.length
      .ok (.float (Decimal.Binary64.ofDecimal negative (digitsValue (whole ++ fraction)) scale), r)

/-! ### Values -/

/-- The values that are written as a name. -/
def constants : List (String × Json) :=
  [("null", .null), ("true", .bool true), ("false", .bool false), ("NaN", .float .nan),
    ("Infinity", .float (.infinite false)), ("-Infinity", .float (.infinite true))]

/-- What is left of a text that starts with `w`. -/
def dropStart? : List Char → List CodePoint → Option (List CodePoint)
  | [],     t            => some t
  | c :: w, .char d :: t => if c = d then dropStart? w t else none
  | _ :: _, _            => none

/-- A value that is written as a name. -/
def constant? (t : List CodePoint) : Option (Json × List CodePoint) :=
  constants.findSome? fun (w, j) => (dropStart? w.toList t).map (j, ·)

/-- How deep values may be nested. -/
def nestingLimit : Nat := 975

mutual

/-- A value. `fuel` bounds the number of its parts, and `depth` how deep it may be nested. -/
def value : Nat → Nat → Reader Json
  | 0,        _,     t => .error (.stuck t)
  | fuel + 1, depth, t =>
    match t with
    | .char '"' :: r => (string? r).map fun (s, r) => (ofName s, r)
    | .char '{' :: r =>
      match depth with
      | 0         => .error .tooDeep
      | depth + 1 =>
        match skip r with
        | .char '}' :: r => .ok (.obj [], r)
        | r              => (members fuel depth [] r).map fun (ms, r) => (.obj ms, r)
    | .char '[' :: r =>
      match depth with
      | 0         => .error .tooDeep
      | depth + 1 =>
        match skip r with
        | .char ']' :: r => .ok (.arr [], r)
        | r              => (items fuel depth r).map fun (js, r) => (.arr js, r)
    | _ =>
      match constant? t with
      | some r => .ok r
      | none   => number t

/-- The items of an array, from the next one to the closing bracket. -/
def items : Nat → Nat → Reader (List Json)
  | 0,        _,     t => .error (.stuck t)
  | fuel + 1, depth, t => do
    let (j, r) ← value fuel depth t
    match skip r with
    | .char ']' :: r => .ok ([j], r)
    | .char ',' :: r => (items fuel depth (skip r)).map fun (js, r) => (j :: js, r)
    | r              => .error (.stuck r)

/-- The members of an object, from the next one to the closing brace, after those in `before`. -/
def members : Nat → Nat → List Member → Reader (List Member)
  | 0,        _,     _,      t => .error (.stuck t)
  | fuel + 1, depth, before, t =>
    match t with
    | .char '"' :: r => do
      let (name, r) ← string? r
      match skip r with
      | .char ':' :: r => do
        let (j, r) ← value fuel depth (skip r)
        let ms := insert name j before
        match skip r with
        | .char '}' :: r => .ok (ms, r)
        | .char ',' :: r => members fuel depth ms (skip r)
        | r              => .error (.stuck r)
      | r => .error (.stuck r)
    | _ => .error (.stuck t)

end

/-- Why a text is not read. -/
inductive ReadError where
  | malformed (position : Nat)
  | longNumeral
  | tooDeep
  deriving DecidableEq, Repr

/-- The value that a whole text writes. -/
def read (t : List CodePoint) : Except ReadError Json :=
  let stop (h : Halt) : ReadError :=
    match h with
    | .stuck left  => .malformed (t.length - left.length)
    | .longNumeral => .longNumeral
    | .tooDeep     => .tooDeep
  match value (2 * t.length + 2) nestingLimit (skip t) with
  | .error h => .error (stop h)
  | .ok (j, r) =>
    match skip r with
    | [] => .ok j
    | r  => .error (stop (.stuck r))

end Almanac.Json
