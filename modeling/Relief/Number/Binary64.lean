import Relief.Number.Ratio

/-!
Doubles as exact numbers: the fields of a double, the double nearest to a quotient, and the square root of a
sum of two squares, correctly rounded.
-/
namespace Relief.Number

/-- What a double stands for. A finite one is `significand * 2 ^ exponent`, with its sign. -/
inductive Binary64 where
  | nan
  | infinite (negative : Bool)
  | finite (negative : Bool) (significand : Nat) (exponent : Int)
  deriving DecidableEq, Repr

namespace Binary64

/-- The least exponent, that of the subnormal doubles. -/
def minExponent : Int := -1074

/-- The fields of a word of 64 bits. -/
def ofWord (w : Nat) : Binary64 :=
  let negative := decide (Nat.pow 2 63 ≤ w)
  let biased : Nat := w / Nat.pow 2 52 % Nat.pow 2 11
  let fraction := w % Nat.pow 2 52
  if biased = 2047 then
    if fraction = 0 then infinite negative else nan
  else if biased = 0 then finite negative fraction minExponent
  else finite negative (Nat.pow 2 52 + fraction) ((biased : Int) - 1075)

def ofFloat (v : Float) : Binary64 :=
  ofWord v.toBits.toNat

def isWhole : Binary64 → Bool
  | finite _ m e => 0 ≤ e || m % Nat.pow 2 e.natAbs == 0
  | _ => false

end Binary64

namespace Ratio

/-- The word of the double nearest to a quotient, ties to even, without its sign. A significand
that is rounded up to the next power of two carries into the exponent by itself. -/
def toWord (r : Ratio) : Nat :=
  if r.num = 0 then 0
  else
    let e := max (r.binaryMagnitude - 52) Binary64.minExponent
    let n := (r.scale 2 (-e)).round .toEven
    min ((e - Binary64.minExponent).toNat * Nat.pow 2 52 + n) (2047 * Nat.pow 2 52)

/-- The nearest double, infinite from halfway above the greatest finite one. -/
def toFloat (r : Ratio) (negative : Bool) : Float :=
  Float.ofBits ((if negative then Nat.pow 2 63 else 0) + r.toWord).toUInt64

end Ratio

/-- The double nearest to an integer, if that is finite. -/
def floatOfInt? (n : Int) : Option Float :=
  let v := (Ratio.ofNat n.natAbs).toFloat (n < 0)
  if v.isFinite then some v else none

namespace Binary64

/-- The exact magnitude of `significand * 2 ^ exponent`. -/
def ratio (significand : Nat) (exponent : Int) : Ratio :=
  (Ratio.ofNat significand).scale 2 exponent

end Binary64

/-- Bits of the root beyond those of a double, before the last rounding. -/
def guardBits : Nat := 64

/-- The quotient nearest to the root of `n`, close enough to be rounded once more. Half a unit is
added to a root that is not exact, so that it is on no boundary. -/
def rootRatio (n : Nat) : Ratio :=
  let k := guardBits
  let s := n * Nat.pow 4 k
  let r := s.sqrt
  ⟨2 * r + (if r * r = s then 0 else 1), Nat.pow 2 (k + 1)⟩

def hypotenuse (a b : Float) : Float :=
  match Binary64.ofFloat a, Binary64.ofFloat b with
  | .infinite _, _ | _, .infinite _ => Float.ofBits 0x7FF0000000000000
  | .nan, _ | _, .nan => Float.ofBits 0x7FF8000000000000
  | .finite _ m e, .finite _ n f =>
    let g := min e f
    let m := m * Nat.pow 2 (e - g).toNat
    let n := n * Nat.pow 2 (f - g).toNat
    ((rootRatio (m * m + n * n)).scale 2 g).toFloat false

end Relief.Number
