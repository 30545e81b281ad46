import Relief.Number.Binary64

/-!
Decimal numbers, and the shortest one that reads back as a given double.
-/
namespace Relief.Number

/-- `coefficient * 10 ^ exponent` -/
structure Decimal where
  coefficient : Nat
  exponent : Int
  deriving DecidableEq, Repr

namespace Decimal

def ratio (d : Decimal) : Ratio :=
  (Ratio.ofNat d.coefficient).scale 10 d.exponent

/-- The digits of the coefficient. -/
def digits (d : Decimal) : List Char :=
  Nat.toDigits 10 d.coefficient

/-- Where the decimal point stands, counted from before the first digit. -/
def point (d : Decimal) : Int :=
  d.digits.length + d.exponent

/-- Without zeros at the end of the coefficient. -/
def strip (d : Decimal) : Decimal :=
  go d.coefficient d
where
  go : Nat → Decimal → Decimal
    | 0, d => d
    | fuel + 1, d =>
      if d.coefficient ≠ 0 ∧ d.coefficient % 10 = 0 then
        go fuel ⟨d.coefficient / 10, d.exponent + 1⟩
      else d

/-- Every decimal of this exponent or more is infinite, unless it is zero. -/
def overflowExponent : Int := 400

/-- The double nearest to a decimal, ties to even. The exponent is compared first, so that no
great power is computed in vain. -/
def toFloat (d : Decimal) (negative : Bool) : Float :=
  if d.coefficient = 0 then Ratio.toFloat ⟨0, 1⟩ negative
  else if overflowExponent ≤ d.exponent then Ratio.toFloat ⟨Nat.pow 2 1024, 1⟩ negative
  else if d.exponent + d.coefficient.log2 < -overflowExponent then Ratio.toFloat ⟨0, 1⟩ negative
  else d.ratio.toFloat negative

end Decimal

/-- The interval of the numbers whose nearest double is a given one, in quarters of its last
place. The ends belong to it if the significand is even. -/
structure Neighbourhood where
  low : Nat
  value : Nat
  high : Nat
  closed : Bool
  exponent : Int

namespace Neighbourhood

/-- Below a power of two the doubles are twice as dense. -/
def of (significand : Nat) (exponent : Int) : Neighbourhood where
  low := 4 * significand -
    (if significand = Nat.pow 2 52 ∧ Binary64.minExponent < exponent then 1 else 2)
  value := 4 * significand
  high := 4 * significand + 2
  closed := significand % 2 == 0
  exponent := exponent - 2

/-- Whether a quotient `num / den`, in the unit of the interval, lies in it. -/
def contains (n : Neighbourhood) (num den : Nat) : Bool :=
  if n.closed then n.low * den ≤ num && num ≤ n.high * den
  else n.low * den < num && num < n.high * den

/-- The member of the interval among the multiples of `10 ^ e` that is nearest to the value, of two
as near the even one. Only the two neighbours of the value on that grid need a test. -/
def onGrid (n : Neighbourhood) (e : Int) : Option Nat :=
  let step := ((Ratio.ofNat 1).scale 10 e).scale 2 (-n.exponent)
  let c := n.value * step.den / step.num
  let below := n.contains (c * step.num) step.den
  let above := n.contains ((c + 1) * step.num) step.den
  if below && above then some ((⟨n.value * step.den, step.num⟩ : Ratio).round .toEven)
  else if below then some c
  else if above then some (c + 1)
  else none

/-- The coarsest grid with a member of the interval, starting with one digit. -/
def search (n : Neighbourhood) : (fuel : Nat) → (e : Int) → Decimal
  | 0, e => ⟨(n.onGrid e).getD 0, e⟩
  | fuel + 1, e =>
    match n.onGrid e with
    | some c => ⟨c, e⟩
    | none => n.search fuel (e - 1)

end Neighbourhood

/-- The shortest decimal that reads back as `significand * 2 ^ exponent`, of several the nearest.
Seventeen digits always suffice. -/
def shortest (significand : Nat) (exponent : Int) : Decimal :=
  if significand = 0 then ⟨0, 0⟩
  else
    ((Neighbourhood.of significand exponent).search 16
      (Binary64.ratio significand exponent).decimalMagnitude).strip

end Relief.Number
