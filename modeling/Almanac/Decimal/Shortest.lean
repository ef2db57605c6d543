import Almanac.Decimal.Binary64
import Almanac.Text.Numeral

/-!
# Shortest decimal text

A binary number is written with the fewest decimal digits that read back as it; of several such
digit strings the nearest one is taken, and of two equally near ones the even one.
-/

namespace Almanac.Decimal

/-- A decimal number `coefficient * 10 ^ scale`. -/
structure Digits where
  coefficient : Nat
  scale       : Int
  deriving DecidableEq, Repr

/-- A decimal number without zeros at the end of its coefficient. `fuel` bounds their number. -/
def Digits.strip : Nat → Digits → Digits
  | 0,        x => x
  | fuel + 1, x =>
    if x.coefficient % 10 = 0 ∧ x.coefficient ≠ 0 then
      Digits.strip fuel ⟨x.coefficient / 10, x.scale + 1⟩
    else x

/-- The number of digits before the point of `m * 2 ^ e`, negative for zeros after it. -/
def magnitude (m : Nat) (e : Int) : Int :=
  let p := Int.fdiv (((m.log2 : Int) + e) * 30103) 100000 + 1
  let below (q : Int) : Bool :=
    let two := power 2 e
    let ten := power 10 q
    m * two.1 * ten.2 < ten.1 * two.2
  if !below p then p + 1 else if below (p - 1) then p - 1 else p

/-- The point of the grid of multiples of `10 ^ scale` that is nearest to `m * 2 ^ e` among those
    that read back as it, if there is one. Quarters of the last binary place are counted, as the
    places where reading starts to round to a neighbour lie half a place away, or a quarter below
    a power of two. -/
def onGrid? (m : Nat) (e : Int) (scale : Int) : Option Digits :=
  let two := power 2 (e - 2)
  let ten := power 10 scale
  let unit := two.1 * ten.2
  let step := two.2 * ten.1
  let value := 4 * m * unit
  let isFull := m = Binary64.fullMantissa ∧ Binary64.leastExponent < e
  let low := (if isFull then 4 * m - 1 else 4 * m - 2) * unit
  let high := (4 * m + 2) * unit
  let inside (x : Nat) : Bool :=
    if m % 2 = 0 then low ≤ x && x ≤ high else low < x && x < high
  let q := value / step
  let down := inside (q * step)
  let up := inside ((q + 1) * step)
  let nearer := 2 * (value - q * step) < step ∨ (2 * (value - q * step) = step ∧ q % 2 = 0)
  if down && (!up || nearer) then some ⟨q, scale⟩
  else if up then some ⟨q + 1, scale⟩
  else none

/-- The fewest digits that read back as `m * 2 ^ e`, for positive `m`. -/
def shortest (m : Nat) (e : Int) : Digits :=
  let p := magnitude m e
  let found := (List.range 17).findSome? fun k => onGrid? m e (p - (k + 1 : Nat))
  (found.getD ⟨m, 0⟩).strip 20

/-! ### Notation -/

/-- How decimal numbers are laid out: how far the point may lie from the first digit before an
    exponent is written, and the least number of digits of that exponent. -/
structure Layout where
  leastPoint    : Int
  greatestPoint : Int
  exponentWidth : Nat

/-- An exponent with its sign. -/
def Layout.exponent (l : Layout) (n : Int) : List Char :=
  let digits := Text.decimal n.natAbs
  (if n < 0 then '-' else '+') ::
    (List.replicate (l.exponentWidth - digits.length) '0' ++ digits)

/-- A decimal number in a layout, always with a point or an exponent. -/
def Layout.digits (l : Layout) (x : Digits) : List Char :=
  let ds := Text.decimal x.coefficient
  let point := (ds.length : Int) + x.scale
  if l.leastPoint ≤ point ∧ point ≤ l.greatestPoint then
    if point ≤ 0 then '0' :: '.' :: (List.replicate (-point).toNat '0' ++ ds)
    else
      let whole := ds.take point.toNat
      let part := ds.drop point.toNat
      whole ++ List.replicate (point.toNat - whole.length) '0' ++
        '.' :: (if part = [] then ['0'] else part)
  else
    ds.take 1 ++ (if ds.length = 1 then [] else '.' :: ds.drop 1) ++
      'e' :: l.exponent (point - 1)

/-- The text of a binary number in a layout. -/
def Layout.text (l : Layout) : Binary64 → String
  | .finite negative m e =>
    let body := if m = 0 then ['0', '.', '0'] else l.digits (shortest m e)
    String.ofList (if negative then '-' :: body else body)
  | .infinite negative => if negative then "-inf" else "inf"
  | .nan => "nan"

/-- Numbers are written without an exponent from one ten-thousandth up to sixteen digits, and an
    exponent has at least two digits. -/
def plain : Layout := ⟨-3, 16, 2⟩

end Almanac.Decimal
