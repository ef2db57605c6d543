import Almanac.Text.Surrogate

/-!
# UTF-8

Texts as bytes. The first byte of a character says how many bytes follow and bounds the next one,
which alone rules out overlong forms and code points beyond the last. Surrogates are let through
when bytes are decoded.
-/

namespace Almanac.Text

/-- Continuation bytes for the low `6 * count` bits of a code point. -/
def continuation : Nat → Nat → List UInt8
  | 0,         _ => []
  | count + 1, n => continuation count (n / 64) ++ [(128 + n % 64).toUInt8]

/-- The bytes of a character. -/
def utf8Char (c : Char) : List UInt8 :=
  let n := c.toNat
  if n < 0x80 then [n.toUInt8]
  else if n < 0x800 then (0xC0 + n / 64).toUInt8 :: continuation 1 n
  else if n < 0x10000 then (0xE0 + n / 4096).toUInt8 :: continuation 2 n
  else (0xF0 + n / 262144).toUInt8 :: continuation 3 n

/-- The bytes of a text. -/
def utf8 (t : List Char) : List UInt8 :=
  t.flatMap utf8Char

/-- The first byte of a character of several bytes: its bits of the code point, the number of
    bytes that follow, and the bounds of the next byte. -/
def leadByte? (b : Nat) : Option (Nat × Nat × Nat × Nat) :=
  if b < 0xC2 then none
  else if b < 0xE0 then some (b - 0xC0, 1, 0x80, 0xBF)
  else if b = 0xE0 then some (0, 2, 0xA0, 0xBF)
  else if b < 0xF0 then some (b - 0xE0, 2, 0x80, 0xBF)
  else if b = 0xF0 then some (0, 3, 0x90, 0xBF)
  else if b < 0xF4 then some (b - 0xF0, 3, 0x80, 0xBF)
  else if b = 0xF4 then some (4, 3, 0x80, 0x8F)
  else none

/-- The text of some bytes. While a character is open, `bits` holds its bits so far, `owed` the
    number of bytes that it still needs, and the next byte lies between `low` and `high`. -/
def decodeFrom (bits owed low high : Nat) : List UInt8 → Option (List CodePoint)
  | []     => if owed = 0 then some [] else none
  | b :: t =>
    let n := b.toNat
    if owed = 0 then
      if n < 0x80 then (decodeFrom 0 0 0 0 t).map (.ofNat n :: ·)
      else
        match leadByte? n with
        | some (bits, owed, low, high) => decodeFrom bits owed low high t
        | none                         => none
    else if n < low ∨ high < n then none
    else
      let bits := 64 * bits + (n - 0x80)
      if owed = 1 then (decodeFrom 0 0 0 0 t).map (.ofNat bits :: ·)
      else decodeFrom bits (owed - 1) 0x80 0xBF t

/-- The code points of some bytes, if they are well formed. -/
def decodeUtf8? (bs : List UInt8) : Option (List CodePoint) :=
  decodeFrom 0 0 0 0 bs

@[simp] theorem utf8_nil : utf8 [] = [] := rfl

@[simp] theorem utf8_cons (c : Char) (t : List Char) : utf8 (c :: t) = utf8Char c ++ utf8 t := by
  simp [utf8]

end Almanac.Text
