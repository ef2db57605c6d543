import Almanac.Text.Blank
import Almanac.Text.Digit

/-!
# Numerals

A whole number is written in decimal digits of any script, with an optional sign in front and
single underscores between digits, and may stand in blank margins. Numerals of more than
4300 digits are refused, leading zeros included.
-/

namespace Almanac.Text

/-- The greatest number of digits that a numeral may have. -/
def maxDigits : Nat := 4300

/-- Why a text is no numeral. -/
inductive NumeralError where
  | malformed
  | tooLong (digits : Nat)
  deriving DecidableEq, Repr

/-- What is said of a numeral with too many digits. -/
def tooLongMessage (digits : Nat) : String :=
  s!"Exceeds the limit ({maxDigits} digits) for integer string conversion: value has {digits} " ++
    "digits; use sys.set_int_max_str_digits() to increase the limit"

/-- The value of a run of digits, if it is not too long. -/
def readDigits (ds : List Char) : Except NumeralError Nat :=
  if maxDigits < ds.length then .error (.tooLong ds.length) else .ok (digitsValue ds)

/-- Blanks around a numeral. The information separators are blank, but no margin. -/
def isMargin (c : Char) : Bool :=
  isBlank c && !(28 ≤ c.toNat && c.toNat ≤ 31)

/-- The digits of a text of digits and single underscores between them. -/
def ungroup : List Char → Option (List Char)
  | []           => none
  | [c]          => if isDigit c then some [c] else none
  | c :: d :: t  =>
    if isDigit c then
      if d = '_' then (ungroup t).map (c :: ·) else (ungroup (d :: t)).map (c :: ·)
    else none

/-- A numeral without its sign. -/
def readMagnitude (t : List Char) : Except NumeralError Nat :=
  match ungroup t with
  | some ds => readDigits ds
  | none    => .error .malformed

/-- The whole number that a text writes. -/
def readInteger (t : List Char) : Except NumeralError Int :=
  match trimEnd isMargin (t.dropWhile isMargin) with
  | '-' :: r => (readMagnitude r).map fun n => -(n : Int)
  | '+' :: r => (readMagnitude r).map Int.ofNat
  | r        => (readMagnitude r).map Int.ofNat

/-! ### Writing -/

/-- The digit character of a value below ten. -/
def digitChar (n : Nat) : Char :=
  Char.ofNat (48 + n)

/-- A number in decimal digits, without leading zeros. -/
def decimal (n : Nat) : List Char :=
  if n < 10 then [digitChar n] else decimal (n / 10) ++ [digitChar (n % 10)]
termination_by n

/-- The last `width` decimal digits of a number, with leading zeros. -/
def zeroPadded : Nat → Nat → List Char
  | 0,         _ => []
  | width + 1, n => zeroPadded width (n / 10) ++ [digitChar (n % 10)]

theorem decimal_of_lt {n : Nat} (h : n < 10) : decimal n = [digitChar n] := by
  rw [decimal, if_pos h]

theorem decimal_of_le {n : Nat} (h : 10 ≤ n) :
    decimal n = decimal (n / 10) ++ [digitChar (n % 10)] := by
  rw [decimal, if_neg (by omega)]

@[simp] theorem length_zeroPadded (width n : Nat) : (zeroPadded width n).length = width := by
  induction width generalizing n with
  | zero => rfl
  | succ w ih => simp [zeroPadded, ih]

end Almanac.Text
