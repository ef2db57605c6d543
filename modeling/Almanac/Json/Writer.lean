import Almanac.Decimal.Shortest
import Almanac.Json.Value
import Almanac.Text.Quoted
import Almanac.Text.Surrogate

/-!
# Writing JSON

JSON text in ASCII without blanks: characters outside ASCII, and control characters, are escaped by
the numbers of their code units.
-/

namespace Almanac.Json

open Text

/-- A character of a string. -/
def charText (c : Char) : List Char :=
  match c with
  | '"'    => ['\\', '"']
  | '\\'   => ['\\', '\\']
  | '\n'   => ['\\', 'n']
  | '\r'   => ['\\', 'r']
  | '\t'   => ['\\', 't']
  | '\x08' => ['\\', 'b']
  | '\x0c' => ['\\', 'f']
  | _      =>
    if 32 ≤ c.toNat ∧ c.toNat ≤ 126 then [c]
    else (unitsOf c).flatMap fun u => '\\' :: 'u' :: hex 4 u

/-- A string. -/
def stringText (s : String) : List Char :=
  '"' :: s.toList.flatMap charText ++ ['"']

/-- What is written for a string or a name whose content is not kept: the replacement character. -/
def lostText : String := "\uFFFD"

/-- A number that need not be whole. -/
def floatText : Decimal.Binary64 → String
  | .infinite negative => if negative then "-Infinity" else "Infinity"
  | .nan               => "NaN"
  | x                  => Decimal.plain.text x

/-- A whole number. -/
def intText (n : Int) : List Char :=
  if n < 0 then '-' :: decimal n.natAbs else decimal n.natAbs

mutual

/-- The text of a value. -/
def text : Json → List Char
  | .null      => "null".toList
  | .bool b    => (if b then "true" else "false").toList
  | .int n     => intText n
  | .float x   => (floatText x).toList
  | .str s     => stringText s
  | .brokenStr => stringText lostText
  | .arr js    => '[' :: itemsText js ++ [']']
  | .obj ms    => '{' :: membersText ms ++ ['}']

/-- The texts of items, with commas between them. -/
def itemsText : List Json → List Char
  | []           => []
  | [j]          => text j
  | j :: k :: js => text j ++ ',' :: itemsText (k :: js)

/-- The texts of members, with commas between them. -/
def membersText : List Member → List Char
  | []                => []
  | [(n, j)]          => stringText (n.getD lostText) ++ ':' :: text j
  | (n, j) :: m :: ms =>
    stringText (n.getD lostText) ++ ':' :: text j ++ ',' :: membersText (m :: ms)

end

end Almanac.Json
