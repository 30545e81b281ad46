import Relief.Number.Binary64

/-!
Numbers of 32 bits: the word of the one nearest to a double, and the double that a word stands for.
-/
namespace Relief.Number.Binary32

/-- The least exponent, that of the subnormal numbers. -/
def minExponent : Int := -149

/-- The word of the number nearest to a quotient, ties to even, without its sign. -/
def nearest (r : Ratio) : Nat :=
  if r.num = 0 then 0
  else
    let e := max (r.binaryMagnitude - 23) minExponent
    let n := (r.scale 2 (-e)).round .toEven
    min ((e - minExponent).toNat * Nat.pow 2 23 + n) (255 * Nat.pow 2 23)

/-- A word without a sign with the given one. -/
def withSign (negative : Bool) (n : Nat) : UInt32 :=
  UInt32.ofNat ((if negative then Nat.pow 2 31 else 0) + n)

/-- The word of the number nearest to a double, infinite from halfway above the greatest finite
one. -/
def ofFloat (v : Float) : UInt32 :=
  match Binary64.ofFloat v with
  | .nan => 0x7FC00000
  | .infinite negative => withSign negative (255 * Nat.pow 2 23)
  | .finite negative m e => withSign negative (nearest (Binary64.ratio m e))

/-- The double that is the number of a word. -/
def toFloat (w : UInt32) : Float :=
  let negative := decide (Nat.pow 2 31 ≤ w.toNat)
  let biased : Nat := w.toNat / Nat.pow 2 23 % Nat.pow 2 8
  let fraction := w.toNat % Nat.pow 2 23
  if biased = 255 then
    if fraction = 0 then Float.ofBits (if negative then 0xFFF0000000000000 else 0x7FF0000000000000)
    else Float.ofBits 0x7FF8000000000000
  else if biased = 0 then (Binary64.ratio fraction minExponent).toFloat negative
  else (Binary64.ratio (Nat.pow 2 23 + fraction) ((biased : Int) - 150)).toFloat negative

end Relief.Number.Binary32
