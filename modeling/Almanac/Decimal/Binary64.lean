/-!
# Binary numbers of 64 bits

A binary number of 64 bits is a sign, a whole number below `2 ^ 53` and a power of two, or one of
the infinities, or no number at all. It is kept as these parts, so that comparing and writing it
are exact. Every fraction has a nearest such number; of two equally near ones the even one.
-/

namespace Almanac.Decimal

/-- A binary number of 64 bits: `mantissa * 2 ^ exponent` with its sign, where the mantissa has 53
    binary digits unless the exponent is the least one. -/
inductive Binary64 where
  | finite (negative : Bool) (mantissa : Nat) (exponent : Int)
  | infinite (negative : Bool)
  | nan
  deriving DecidableEq, Repr

/-- `base ^ e` as a fraction. -/
def power (base : Nat) (e : Int) : Nat × Nat :=
  if 0 ≤ e then (base.pow e.toNat, 1) else (1, base.pow (-e).toNat)

/-- The whole number nearest to `n / d`, the even one of two equally near. -/
def roundHalfEven (n d : Nat) : Nat :=
  let q := n / d
  let r := n % d
  if 2 * r < d ∨ (2 * r = d ∧ q % 2 = 0) then q else q + 1

namespace Binary64

/-- The least exponent. -/
def leastExponent : Int := -1074

/-- The greatest exponent. -/
def greatestExponent : Int := 971

/-- The bound of the mantissas: they have 53 binary digits at most. -/
def mantissaBound : Nat := Nat.pow 2 53

/-- The least mantissa with 53 binary digits. -/
def fullMantissa : Nat := Nat.pow 2 52

/-- Zero. -/
def zero : Binary64 := .finite false 0 leastExponent

/-- The mantissa of `n / d` at exponent `e`, before it is rounded, as a fraction. -/
def scaled (n d : Nat) (e : Int) : Nat × Nat :=
  let p := power 2 e
  (n * p.2, d * p.1)

/-- The number nearest to `n / d`, for positive `d`. -/
def nearest (negative : Bool) (n d : Nat) : Binary64 :=
  if n = 0 then .finite negative 0 leastExponent
  else
    let e : Int := (n.log2 : Int) - d.log2 - 53
    let s := scaled n d e
    let e := max leastExponent (if s.1 / s.2 < mantissaBound then e else e + 1)
    let s := scaled n d e
    let m := roundHalfEven s.1 s.2
    let (m, e) := if m = mantissaBound then (fullMantissa, e + 1) else (m, e)
    if greatestExponent < e then .infinite negative else .finite negative m e

/-- The number nearest to `coefficient * 10 ^ scale`. Powers of ten far outside the range of the
    finite numbers are not worked out. -/
def ofDecimal (negative : Bool) (coefficient : Nat) (scale : Int) : Binary64 :=
  let digits : Int := (coefficient.log2 : Int) / 3 + 1
  if coefficient = 0 ∨ digits + scale < -400 then .finite negative 0 leastExponent
  else if 400 < scale then .infinite negative
  else
    let p := power 10 scale
    nearest negative (coefficient * p.1) p.2

/-- The number nearest to a fraction. -/
def ofRat (q : Rat) : Binary64 :=
  nearest (q < 0) q.num.natAbs q.den

/-- The value of a finite number. -/
def toRat? : Binary64 → Option Rat
  | .finite negative m e =>
    let p := power 2 e
    let q := mkRat (m * p.1) p.2
    some (if negative then -q else q)
  | _ => none

/-- Whether a number is below or equal to a whole number. -/
def leInt : Binary64 → Int → Bool
  | .infinite negative, _ => negative
  | .nan,               _ => false
  | x,                  n => x.toRat?.any (· ≤ (n : Rat))

/-- Whether a number is above or equal to a whole number. -/
def geInt : Binary64 → Int → Bool
  | .infinite negative, _ => !negative
  | .nan,               _ => false
  | x,                  n => x.toRat?.any ((n : Rat) ≤ ·)

/-- A finite number without its fractional part. -/
def truncate? (x : Binary64) : Option Int :=
  x.toRat?.map fun q => if q < 0 then q.ceil else q.floor

/-- Whether a number is neither infinite nor no number. -/
def isFinite : Binary64 → Bool
  | .finite .. => true
  | _          => false

/-- Whether a number is zero, of either sign. -/
def isZero : Binary64 → Bool
  | .finite _ m _ => m == 0
  | _             => false

end Binary64

end Almanac.Decimal
