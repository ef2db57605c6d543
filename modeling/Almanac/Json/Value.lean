import Almanac.Decimal.Binary64

/-!
# JSON values

Whole numbers are kept exactly; other numbers are binary numbers of 64 bits. A string with half of
a surrogate pair is no text, and is kept as such without its content; the name of a member is
`none` then. The members of an object have different names.
-/

namespace Almanac

/-- A JSON value. -/
inductive Json where
  | null
  | bool (b : Bool)
  | int (n : Int)
  | float (x : Decimal.Binary64)
  | str (s : String)
  | brokenStr
  | arr (items : List Json)
  | obj (members : List (Option String × Json))
  deriving Inhabited, Repr

namespace Json

/-- A member of an object: its name and its value. -/
abbrev Member := Option String × Json

/-- The members with one more; a member of the same name is replaced in its place. -/
def insert (name : Option String) (v : Json) : List Member → List Member
  | []           => [(name, v)]
  | (k, w) :: ms => if k = name then (name, v) :: ms else (k, w) :: insert name v ms

/-- The member of an object with a name. -/
def get? (j : Json) (name : String) : Option Json :=
  match j with
  | .obj members => members.lookup (some name)
  | _            => none

/-- Whether a value is a string. -/
def isString : Json → Bool
  | .str _     => true
  | .brokenStr => true
  | _          => false

/-- Whether a value is nothing, zero, or without content. -/
def isBlank : Json → Bool
  | .null    => true
  | .bool b  => !b
  | .int n   => n == 0
  | .float x => x.isZero
  | .str s   => s == ""
  | .arr xs  => xs.isEmpty
  | .obj ms  => ms.isEmpty
  | _        => false

/-- The name of a member as a value. -/
def ofName : Option String → Json
  | some s => .str s
  | none   => .brokenStr

mutual

/-- Whether a property holds of a value or of one inside it, names of members included. -/
def any (p : Json → Bool) : Json → Bool
  | .arr items   => p (.arr items) || anyItem p items
  | .obj members => p (.obj members) || anyMember p members
  | j            => p j

/-- Whether a property holds of one of some values or of one inside them. -/
def anyItem (p : Json → Bool) : List Json → Bool
  | []      => false
  | j :: js => any p j || anyItem p js

/-- Whether a property holds of the name or the value of a member, or of one inside it. -/
def anyMember (p : Json → Bool) : List Member → Bool
  | []           => false
  | (n, j) :: ms => p (ofName n) || any p j || anyMember p ms

end

end Json

end Almanac
