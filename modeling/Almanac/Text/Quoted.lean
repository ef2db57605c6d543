import Almanac.Text.Printable

/-!
# Quoted texts

A text is quoted in messages between single quotes, or between double quotes when it holds a
single quote and no double quote. The quote, the backslash and characters that cannot be printed
are written as escapes.
-/

namespace Almanac.Text

/-- The lower-case hexadecimal digit of a value below sixteen. -/
def hexDigit (n : Nat) : Char :=
  if n < 10 then Char.ofNat (48 + n) else Char.ofNat (87 + n)

/-- The last `width` hexadecimal digits of `n`. -/
def hex : Nat → Nat → List Char
  | 0,         _ => []
  | width + 1, n => hex width (n / 16) ++ [hexDigit (n % 16)]

/-- One character between `quote` marks. -/
def quotedChar (quote c : Char) : List Char :=
  if c = quote ∨ c = '\\' then ['\\', c]
  else if c = '\t' then ['\\', 't']
  else if c = '\n' then ['\\', 'n']
  else if c = '\r' then ['\\', 'r']
  else if isPrintable c then [c]
  else if c.toNat < 0x100 then '\\' :: 'x' :: hex 2 c.toNat
  else if c.toNat < 0x10000 then '\\' :: 'u' :: hex 4 c.toNat
  else '\\' :: 'U' :: hex 8 c.toNat

/-- A text as it stands in a message. -/
def quoted (s : String) : String :=
  let t := s.toList
  let quote := if t.contains '\'' && !t.contains '"' then '"' else '\''
  String.ofList (quote :: t.flatMap (quotedChar quote) ++ [quote])

end Almanac.Text
