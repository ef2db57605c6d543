import Almanac.Json.Reader
import Almanac.Text.Utf8

/-!
# JSON as bytes

A JSON text starts with two ASCII characters, or is a single one, so where zero bytes stand at its
start tells how it is encoded, unless a byte order mark does. Surrogates are let through in every
encoding.
-/

namespace Almanac.Json

open Text

/-- How a text is encoded. -/
inductive Encoding where
  | utf8
  | utf16 (bigEndian : Bool)
  | utf32 (bigEndian : Bool)
  deriving DecidableEq, Repr

/-- The byte order marks, and how a text after each of them is encoded. -/
def byteOrderMarks : List (List UInt8 × Encoding) :=
  [ ([0x00, 0x00, 0xFE, 0xFF], .utf32 true)
  , ([0xFF, 0xFE, 0x00, 0x00], .utf32 false)
  , ([0xFE, 0xFF], .utf16 true)
  , ([0xFF, 0xFE], .utf16 false)
  , ([0xEF, 0xBB, 0xBF], .utf8) ]

/-- The encoding of a JSON text without a byte order mark. -/
def Encoding.ofZeros : List UInt8 → Encoding
  | a :: b :: c :: d :: _ =>
    if a = 0 then (if b = 0 then .utf32 true else .utf16 true)
    else if b = 0 then (if c = 0 ∧ d = 0 then .utf32 false else .utf16 false)
    else .utf8
  | [a, b]                => if a = 0 then .utf16 true else if b = 0 then .utf16 false else .utf8
  | _                     => .utf8

/-- The encoding of a JSON text, and its bytes after a byte order mark. -/
def Encoding.detect (bs : List UInt8) : Encoding × List UInt8 :=
  match byteOrderMarks.find? fun m => m.1.isPrefixOf bs with
  | some (mark, e) => (e, bs.drop mark.length)
  | none           => (ofZeros bs, bs)

/-- Code units of two bytes. -/
def units16? (bigEndian : Bool) : List UInt8 → Option (List Nat)
  | []          => some []
  | [_]         => none
  | a :: b :: r =>
    let n := if bigEndian then 256 * a.toNat + b.toNat else 256 * b.toNat + a.toNat
    (units16? bigEndian r).map (n :: ·)

/-- Code units of four bytes, from those of two. -/
def pairUnits? (bigEndian : Bool) : List Nat → Option (List Nat)
  | []          => some []
  | [_]         => none
  | a :: b :: r =>
    let n := if bigEndian then 65536 * a + b else 65536 * b + a
    (pairUnits? bigEndian r).map (n :: ·)

/-- Code units of four bytes. -/
def units32? (bigEndian : Bool) (bs : List UInt8) : Option (List Nat) :=
  (units16? bigEndian bs).bind (pairUnits? bigEndian)

/-- The code points of some bytes in an encoding. -/
def Encoding.decode? : Encoding → List UInt8 → Option (List CodePoint)
  | .utf8,            bs => decodeUtf8? bs
  | .utf16 bigEndian, bs => (units16? bigEndian bs).map codePoints
  | .utf32 bigEndian, bs =>
    (units32? bigEndian bs).bind fun us =>
      if us.any (0x10FFFF < ·) then none else some (us.map .ofNat)

/-- The code points of a JSON document. -/
def decode? (bs : List UInt8) : Option (List CodePoint) :=
  let (e, bs) := Encoding.detect bs
  e.decode? bs

end Almanac.Json
