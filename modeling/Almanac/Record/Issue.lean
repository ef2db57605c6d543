import Almanac.Json.Value

/-!
# Issues with given data

Data that is given from outside is checked field by field. Each issue says of what kind it is,
where it lies, and what was given there.
-/

namespace Almanac.Record

/-- What is wrong with a field. -/
inductive IssueKind where
  | missing
  | belowZero
  | aboveOne
  | notBool
  | notNumber
  | notText
  /-- A string with half of a surrogate pair. -/
  | brokenText
  | emptyText
  | notOneOf (names : List String)
  | notObject
  | notJson
  /-- Fields that are valid by themselves do not go together. -/
  | inconsistent (why : String)
  | frozen
  deriving DecidableEq, Repr

/-- The code of a kind of issue. -/
def IssueKind.code : IssueKind → String
  | .missing        => "missing"
  | .belowZero      => "greater_than_equal"
  | .aboveOne       => "less_than_equal"
  | .notBool        => "bool_type"
  | .notNumber      => "float_type"
  | .notText        => "string_type"
  | .brokenText     => "string_unicode"
  | .emptyText      => "string_too_short"
  | .notOneOf _     => "enum"
  | .notObject      => "model_attributes_type"
  | .notJson        => "json_invalid"
  | .inconsistent _ => "value_error"
  | .frozen         => "frozen_instance"

/-- Names in single quotes, the last one after an "or". -/
def alternatives : List String → String
  | []           => ""
  | [s]          => "'" ++ s ++ "'"
  | [s, t]       => "'" ++ s ++ "' or '" ++ t ++ "'"
  | s :: t :: ss => "'" ++ s ++ "', " ++ alternatives (t :: ss)

/-- What is said of a kind of issue. -/
def IssueKind.message : IssueKind → String
  | .missing          => "Field required"
  | .belowZero        => "Input should be greater than or equal to 0"
  | .aboveOne         => "Input should be less than or equal to 1"
  | .notBool          => "Input should be a valid boolean"
  | .notNumber        => "Input should be a valid number"
  | .notText          => "Input should be a valid string"
  | .brokenText       =>
    "Input should be a valid string, unable to parse raw data as a unicode string"
  | .emptyText        => "String should have at least 1 character"
  | .notOneOf names   => "Input should be " ++ alternatives names
  | .notObject        =>
    "Input should be a valid dictionary or object to extract fields from"
  | .notJson          => "JSON decode error"
  | .inconsistent why => "Value error, " ++ why
  | .frozen           => "Instance is frozen"

/-- A step on the way to a field: a name, or a position in a text. -/
inductive Place where
  | name (s : String)
  | position (n : Nat)
  deriving DecidableEq, Repr

/-- An issue with given data. -/
structure Issue where
  kind  : IssueKind
  place : List Place
  given : Json

/-- An issue as data. What was given is left out. -/
def Issue.json (i : Issue) : Json :=
  .obj
    [ ("type", .str i.kind.code)
    , ("loc", .arr (i.place.map fun
        | .name s     => .str s
        | .position n => .int n))
    , ("msg", .str i.kind.message) ]

/-- The outcome of looking at one field: its value, or what is wrong with it. -/
abbrev Checked (α : Type) := Except IssueKind α

/-- The issue with a field of some data, if there is one. What is given for a missing field is the
    whole of the data. -/
def Checked.issues {α : Type} (c : Checked α) (path : List Place) (data : Json) (name : String) :
    List Issue :=
  match c with
  | .ok _       => []
  | .error kind =>
    [⟨kind, path ++ [.name name], if kind = .missing then data else (data.get? name).getD .null⟩]

/-! ### Kinds of fields -/

/-- A text. -/
def textField : Json → Checked String
  | .str s     => .ok s
  | .brokenStr => .error .brokenText
  | _          => .error .notText

/-- A text that may be left out or be nothing. -/
def optionalText : Option Json → Checked (Option String)
  | none       => .ok none
  | some .null => .ok none
  | some j     => (textField j).map some

/-- A truth value. -/
def boolField : Option Json → Checked Bool
  | none           => .error .missing
  | some (.bool b) => .ok b
  | some _         => .error .notBool

end Almanac.Record
