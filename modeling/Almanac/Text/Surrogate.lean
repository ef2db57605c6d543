/-!
# Surrogates

In code units of 16 bits a character beyond the first 65536 is a pair of surrogates, a high one
and a low one. A surrogate without its partner is no character, but it may turn up in a text that
was decoded leniently.
-/

namespace Almanac.Text

/-- Whether a code unit is the first of a pair. -/
def isHighSurrogate (n : Nat) : Bool :=
  0xD800 ≤ n && n < 0xDC00

/-- Whether a code unit is the second of a pair. -/
def isLowSurrogate (n : Nat) : Bool :=
  0xDC00 ≤ n && n < 0xE000

/-- A code point of a text that was decoded leniently: a character, or a surrogate without its
    partner. Which surrogate it is does not matter. -/
inductive CodePoint where
  | char (c : Char)
  | surrogate
  deriving DecidableEq, Repr

/-- The code point with a number. -/
def CodePoint.ofNat (n : Nat) : CodePoint :=
  if isHighSurrogate n || isLowSurrogate n then .surrogate else .char (Char.ofNat n)

/-- The characters of code points, if no surrogate stands alone. -/
def charsOf? : List CodePoint → Option (List Char)
  | []              => some []
  | .char c :: t    => (charsOf? t).map (c :: ·)
  | .surrogate :: _ => none

/-- The code points of code units, of which some may be whole code points already. -/
def codePoints : List Nat → List CodePoint
  | []          => []
  | [n]         => [.ofNat n]
  | n :: m :: t =>
    if isHighSurrogate n && isLowSurrogate m then
      .char (Char.ofNat (0x10000 + 0x400 * (n - 0xD800) + (m - 0xDC00))) :: codePoints t
    else .ofNat n :: codePoints (m :: t)

/-- The characters of code units, if no surrogate stands alone. -/
def joinUnits? (units : List Nat) : Option (List Char) :=
  charsOf? (codePoints units)

/-- The code units of a character. -/
def unitsOf (c : Char) : List Nat :=
  let n := c.toNat
  if n < 0x10000 then [n]
  else [0xD800 + (n - 0x10000) / 0x400, 0xDC00 + (n - 0x10000) % 0x400]

end Almanac.Text
