import Relief.Number.Binary64

/-!
The numbers that surfaces are made of. Programs compute with doubles; the laws of geometry hold for
exact numbers.
-/
namespace Relief

class Scalar (α : Type) extends Add α, Sub α, Mul α, Div α, Neg α, LT α, LE α, OfScientific α where
  ofNat : Nat → α
  decLt : ∀ a b : α, Decidable (a < b)
  decLe : ∀ a b : α, Decidable (a ≤ b)
  /-- Equality of numbers, which for doubles is not equality of bits. -/
  same : α → α → Bool
  isFinite : α → Bool
  sqrt : α → α
  /-- `sqrt (a * a + b * b)` -/
  hypot : α → α → α
  floor : α → α

namespace Scalar

variable {α : Type} [Scalar α]

instance : DecidableLT α := decLt
instance : DecidableLE α := decLe

def zero : α := ofNat 0
def one : α := ofNat 1

/-- Into an interval. No comparison holds of a NaN, which stays. -/
def clamp (low high v : α) : α :=
  let m := if v ≤ low then low else v
  if high ≤ m then high else m

/-- The greater of two, the first if they are equal, a NaN if either is. -/
def greater (a b : α) : α :=
  if a < b then b else if same b b then a else b

def least? : List α → Option α
  | [] => none
  | v :: vs => some (vs.foldl (fun m v => if v < m then v else m) v)

def greatest? : List α → Option α
  | [] => none
  | v :: vs => some (vs.foldl greater v)

/-- What lies above the whole number below. -/
def fractional (v : α) : α :=
  v - floor v

end Scalar

instance : Scalar Float where
  ofNat := Float.ofNat
  decLt := inferInstance
  decLe := inferInstance
  same a b := a == b
  isFinite := Float.isFinite
  sqrt := Float.sqrt
  hypot := Number.hypotenuse
  floor := Float.floor

end Relief
