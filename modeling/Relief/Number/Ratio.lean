/-!
Quotients of natural numbers, as exact magnitudes and rounded to natural numbers.
-/
namespace Relief.Number

/-- What becomes of a quotient halfway between two neighbours. -/
inductive Tie where
  | toEven
  | up
  deriving DecidableEq, Repr

/-- The natural number nearest to `num / den`. -/
def roundDiv (num den : Nat) (tie : Tie) : Nat :=
  let q := num / den
  let r := num % den
  if 2 * r < den then q
  else if den < 2 * r then q + 1
  else match tie with
    | .toEven => q + q % 2
    | .up => q + 1

theorem roundDiv_up {num den : Nat} (h : 0 < den) :
    roundDiv num den .up = (2 * num + den) / (2 * den) := by
  obtain ⟨q, r, hr, rfl⟩ : ∃ q r, r < den ∧ num = r + den * q :=
    ⟨num / den, num % den, Nat.mod_lt num h, (Nat.mod_add_div num den).symm⟩
  have hq : (r + den * q) / den = q := by
    rw [Nat.add_mul_div_left _ _ h, Nat.div_eq_of_lt hr, Nat.zero_add]
  have hm : (r + den * q) % den = r := by
    rw [Nat.add_mul_mod_self_left, Nat.mod_eq_of_lt hr]
  have hs : 2 * (r + den * q) + den = (2 * r + den) + 2 * den * q := by
    rw [Nat.mul_add, Nat.mul_assoc]; omega
  rw [hs, Nat.add_mul_div_left _ _ (by omega)]
  simp only [roundDiv, hq, hm]
  by_cases hl : 2 * r < den
  · rw [if_pos hl, Nat.div_eq_of_lt (by omega), Nat.zero_add]
  · have : (2 * r + den) / (2 * den) = 1 := by
      rw [Nat.div_eq_iff (by omega)]; omega
    rw [if_neg hl, this, Nat.add_comm 1 q]
    exact ite_self _

/-- A quotient of natural numbers. -/
structure Ratio where
  num : Nat
  den : Nat
  deriving DecidableEq, Repr

namespace Ratio

def ofNat (n : Nat) : Ratio := ⟨n, 1⟩

/-- Scaled by a power of `base`. -/
def scale (r : Ratio) (base : Nat) : Int → Ratio
  | .ofNat k => ⟨r.num * Nat.pow base k, r.den⟩
  | .negSucc k => ⟨r.num, r.den * Nat.pow base (k + 1)⟩

/-- `1 ≤ r / base ^ e` -/
def reaches (r : Ratio) (base : Nat) (e : Int) : Bool :=
  let s := r.scale base (-e)
  s.den ≤ s.num

/-- The greatest `e` with `base ^ e ≤ r`, among those at most two away from `guess`. -/
def magnitude (r : Ratio) (base : Nat) (guess : Int) : Int :=
  if r.reaches base (guess + 2) then guess + 2
  else if r.reaches base (guess + 1) then guess + 1
  else if r.reaches base guess then guess
  else if r.reaches base (guess - 1) then guess - 1
  else guess - 2

/-- The greatest `e` with `2 ^ e ≤ r`. -/
def binaryMagnitude (r : Ratio) : Int :=
  r.magnitude 2 (r.num.log2 - r.den.log2)

/-- The greatest `e` with `10 ^ e ≤ r`. -/
def decimalMagnitude (r : Ratio) : Int :=
  r.magnitude 10 (((r.num.log2 : Int) - r.den.log2) * 30103 / 100000)

def round (r : Ratio) (tie : Tie) : Nat :=
  roundDiv r.num r.den tie

end Ratio

end Relief.Number
