import Almanac.Text.Blank
import Almanac.Text.LowerCase

/-!
# Normal form of a phrase

Before it is read, a phrase is put into lower case, its words are set apart by single spaces, and
the marks that end a sentence are dropped from its end.
-/

namespace Almanac.Phrase

open Text

/-- The marks that end a sentence. -/
def isEndMark (c : Char) : Bool :=
  c == '.' || c == '!' || c == '?'

/-- The normal form of a phrase. -/
def normalize (t : List Char) : List Char :=
  trim (trimEnd isEndMark (spaced (words (lower t))))

@[simp] theorem normalize_nil : normalize [] = [] := rfl

end Almanac.Phrase
