/-!
# Base64 for addresses

Three bytes are written as four characters of six bits each, with `-` and `_` for the last two
values. A group that is not full at the end is written without padding. Reading accepts a text
with its padding or without it, and nothing else: the bits that are left over are zero, and no
other character stands anywhere, so a text is one of the two ways of writing its bytes.
-/

namespace Almanac.Token

/-! ### Writing -/

/-- The character for six bits. -/
def sextetChar (n : Nat) : Char :=
  if n < 26 then Char.ofNat (65 + n)
  else if n < 52 then Char.ofNat (71 + n)
  else if n < 62 then Char.ofNat (n - 4)
  else if n = 62 then '-'
  else '_'

/-- The text of some bytes. -/
def encode64 : List UInt8 → List Char
  | []               => []
  | [a]              =>
    let n := a.toNat
    [sextetChar (n / 4), sextetChar (n % 4 * 16)]
  | [a, b]           =>
    let n := 256 * a.toNat + b.toNat
    [sextetChar (n / 1024), sextetChar (n / 16 % 64), sextetChar (n % 16 * 4)]
  | a :: b :: c :: r =>
    let n := 65536 * a.toNat + 256 * b.toNat + c.toNat
    sextetChar (n / 262144) :: sextetChar (n / 4096 % 64) :: sextetChar (n / 64 % 64) ::
      sextetChar (n % 64) :: encode64 r

/-! ### Reading -/

/-- The six bits that a byte stands for as a character. -/
def sextet? (b : UInt8) : Option Nat :=
  let n := b.toNat
  if 65 ≤ n ∧ n ≤ 90 then some (n - 65)
  else if 97 ≤ n ∧ n ≤ 122 then some (n - 71)
  else if 48 ≤ n ∧ n ≤ 57 then some (n + 4)
  else if n = 45 then some 62
  else if n = 95 then some 63
  else none

/-- The padding character. -/
def padding : UInt8 := 61

/-- The byte that two characters stand for. -/
def decodeOne? (a b : UInt8) : Option (List UInt8) := do
  let a ← sextet? a
  let b ← sextet? b
  if b % 16 = 0 then some [(4 * a + b / 16).toUInt8] else none

/-- The two bytes that three characters stand for. -/
def decodeTwo? (a b c : UInt8) : Option (List UInt8) := do
  let a ← sextet? a
  let b ← sextet? b
  let c ← sextet? c
  if c % 4 = 0 then some [(4 * a + b / 16).toUInt8, (16 * (b % 16) + c / 4).toUInt8] else none

/-- The three bytes that four characters stand for. -/
def decodeThree? (a b c d : UInt8) : Option (List UInt8) := do
  let a ← sextet? a
  let b ← sextet? b
  let c ← sextet? c
  let d ← sextet? d
  some [(4 * a + b / 16).toUInt8, (16 * (b % 16) + c / 4).toUInt8, (64 * (c % 4) + d).toUInt8]

/-- The bytes that a text, given as bytes, stands for. -/
def decode64? : List UInt8 → Option (List UInt8)
  | []                    => some []
  | [_]                   => none
  | [a, b]                => decodeOne? a b
  | [a, b, c]             => decodeTwo? a b c
  | a :: b :: c :: d :: r =>
    if r = [] ∧ d = padding then if c = padding then decodeOne? a b else decodeTwo? a b c
    else (decodeThree? a b c d).bind fun bytes => (decode64? r).map (bytes ++ ·)

end Almanac.Token
