import Mathlib
import Relief.Sum
import Relief.Vec3

/-!
Numbers without rounding: the elements of an ordered field, for which surfaces have the laws of geometry.
-/

/-- The numbers of an ordered field. -/
class ExactNumber (K : Type) extends Field K, LinearOrder K, IsStrictOrderedRing K, FloorRing K where
  /-- The root, as far as there is one among the numbers. -/
  root : K → K

instance : ExactNumber ℚ where
  root := Rat.sqrt

noncomputable instance : ExactNumber ℝ where
  root := Real.sqrt

namespace Relief

namespace Scalar

variable {K : Type} [ExactNumber K]

/-- The operations of the field itself. -/
instance (priority := low) exact : Scalar K where
  ofNat n := n
  decLt := inferInstance
  decLe := inferInstance
  same a b := decide (a = b)
  isFinite _ := true
  sqrt := ExactNumber.root
  hypot a b := ExactNumber.root (a * a + b * b)
  floor a := ⌊a⌋

theorem zero_eq : (zero : K) = 0 := Nat.cast_zero

theorem one_eq : (one : K) = 1 := Nat.cast_one

theorem ofNat_eq (n : Nat) : (ofNat n : K) = n := rfl

theorem fractional_eq (v : K) : fractional v = Int.fract v := rfl

section Clamp

variable {low high v w : K}

theorem clamp_eq (low high v : K) : clamp low high v = min high (max v low) := by
  rw [min_def, max_def]
  rfl

theorem clamp_mem (h : low ≤ high) (v : K) : low ≤ clamp low high v ∧ clamp low high v ≤ high := by
  rw [clamp_eq]
  exact ⟨le_min h (le_max_right v low), min_le_left high _⟩

theorem clamp_eq_self (h : low ≤ v) (h' : v ≤ high) : clamp low high v = v := by
  rw [clamp_eq, max_eq_left h, min_eq_right h']

theorem clamp_mono (h : v ≤ w) : clamp low high v ≤ clamp low high w := by
  rw [clamp_eq, clamp_eq]
  exact min_le_min_left high (max_le_max_right low h)

end Clamp

end Scalar

/-! ### Sums -/

section Sums

variable {K : Type} [ExactNumber K] (lanes vs : List K)

theorem foldl_add_eq (v : K) : vs.foldl (· + ·) v = v + vs.sum := by
  induction vs generalizing v with
  | nil => exact (add_zero v).symm
  | cons w vs ih => rw [List.foldl_cons, ih, List.sum_cons, ← add_assoc]

/-- Adding rows to the lanes moves numbers from one list to another, whose sums make up the same total. -/
theorem sum_addRows (h : lanes.length = laneCount) :
    (addRows lanes vs).1.length = laneCount ∧
      (addRows lanes vs).1.sum + (addRows lanes vs).2.sum = lanes.sum + vs.sum := by
  fun_induction addRows lanes vs with
  | case1 lanes vs hlt => exact ⟨h, rfl⟩
  | case2 lanes vs hlt ih =>
    have hrow : (vs.take laneCount).length = lanes.length := by
      rw [h, List.length_take, Nat.min_eq_left (Nat.le_of_not_lt hlt)]
    have hrows := List.sum_add_sum_eq_sum_zipWith_of_length_eq lanes (vs.take laneCount) hrow.symm
    obtain ⟨hlen, hsum⟩ := ih (by rw [List.length_zipWith, hrow, Nat.min_self, h])
    refine ⟨hlen, ?_⟩
    calc _ = (List.zipWith (· + ·) lanes (vs.take laneCount)).sum + (vs.drop laneCount).sum := hsum
      _ = lanes.sum + (vs.take laneCount).sum + (vs.drop laneCount).sum :=
          congrArg (· + (vs.drop laneCount).sum) hrows.symm
      _ = lanes.sum + vs.sum := by rw [add_assoc, List.sum_take_add_sum_drop]

theorem sum_addNeighbours :
    (addNeighbours vs).sum = vs.sum ∧ (addNeighbours vs).length = (vs.length + 1) / 2 := by
  fun_induction addNeighbours vs with
  | case1 a b vs ih =>
    obtain ⟨hsum, hlen⟩ := ih
    constructor
    · rw [List.sum_cons, hsum, List.sum_cons, List.sum_cons, ← add_assoc]
    · rw [List.length_cons, hlen, List.length_cons, List.length_cons]
      omega
  | case2 vs hshort =>
    refine ⟨rfl, ?_⟩
    obtain _ | ⟨a, _ | ⟨b, vs⟩⟩ := vs
    · exact (by decide : 0 = (0 + 1) / 2)
    · exact (by decide : 1 = (1 + 1) / 2)
    · exact (hshort a b vs rfl).elim

theorem blockSum_eq_sum : blockSum vs = vs.sum := by
  rw [blockSum]
  split
  · rw [foldl_add_eq, Scalar.zero_eq, zero_add]
  · next hlong =>
    have hlanes : (vs.take laneCount).length = laneCount := by
      rw [List.length_take, Nat.min_eq_left (Nat.le_of_not_lt hlong)]
    obtain ⟨hlen, hsum⟩ := sum_addRows (vs.take laneCount) (vs.drop laneCount) hlanes
    rw [List.sum_take_add_sum_drop] at hsum
    rcases hrows : addRows (vs.take laneCount) (vs.drop laneCount) with ⟨lanes, rest⟩
    rw [hrows] at hlen hsum
    dsimp only at hlen hsum ⊢
    obtain ⟨h4, l4⟩ := sum_addNeighbours lanes
    obtain ⟨h2, l2⟩ := sum_addNeighbours (addNeighbours lanes)
    obtain ⟨h1, l1⟩ := sum_addNeighbours (addNeighbours (addNeighbours lanes))
    rw [l2, l4, hlen] at l1
    obtain ⟨total, htotal⟩ := List.length_eq_one_iff.1 l1
    rw [foldl_add_eq, ← hsum, ← h4, ← h2, ← h1, htotal, List.sum_singleton]
    rfl

/-- In exact numbers the order in which numbers are added makes no difference. -/
theorem pairwiseSum_eq_sum : pairwiseSum vs = vs.sum := by
  fun_induction pairwiseSum vs with
  | case1 vs _ => exact blockSum_eq_sum vs
  | case2 vs _ ih1 ih2 =>
    rw [ih1, ih2]
    exact List.sum_take_add_sum_drop vs _

end Sums

/-! ### Directions -/

namespace Vec3

section Components

variable {α : Type} [Scalar α] (u v : Vec3 α)

@[simp] theorem sub_x : (u - v).x = u.x - v.x := rfl
@[simp] theorem sub_y : (u - v).y = u.y - v.y := rfl
@[simp] theorem sub_z : (u - v).z = u.z - v.z := rfl

end Components

section Products

variable {K : Type} [ExactNumber K] {u v : Vec3 K}

/-- Two directions with an upright cross product are level, since the product is at right angles to both. -/
theorem level_of_cross_upright (hx : (u.cross v).x = 0) (hy : (u.cross v).y = 0)
    (hz : (u.cross v).z ≠ 0) : u.z = 0 ∧ v.z = 0 := by
  have hu : (u.cross v).x * u.x + (u.cross v).y * u.y + (u.cross v).z * u.z = 0 := by
    simp only [cross]
    ring
  have hv : (u.cross v).x * v.x + (u.cross v).y * v.y + (u.cross v).z * v.z = 0 := by
    simp only [cross]
    ring
  rw [hx, hy, zero_mul, zero_mul, zero_add, zero_add, mul_eq_zero_iff_left hz] at hu hv
  exact ⟨hu, hv⟩

end Products

variable {v : Vec3 ℝ}

theorem norm_eq (v : Vec3 ℝ) : v.norm = √(v.x * v.x + v.y * v.y + v.z * v.z) := rfl

theorem norm_mul_norm (v : Vec3 ℝ) : v.norm * v.norm = v.x * v.x + v.y * v.y + v.z * v.z := by
  rw [norm_eq]
  exact Real.mul_self_sqrt (add_nonneg (add_nonneg (mul_self_nonneg _) (mul_self_nonneg _))
    (mul_self_nonneg _))

theorem z_le_norm (v : Vec3 ℝ) : v.z ≤ v.norm := by
  rw [norm_eq]
  apply Real.le_sqrt_of_sq_le
  rw [sq]
  exact le_add_of_nonneg_left (add_nonneg (mul_self_nonneg _) (mul_self_nonneg _))

theorem norm_eq_z (hx : v.x = 0) (hy : v.y = 0) (hz : 0 ≤ v.z) : v.norm = v.z := by
  rw [norm_eq, hx, hy, mul_zero, zero_add, zero_add]
  exact Real.sqrt_mul_self hz

theorem norm_eq_z_iff (hz : 0 ≤ v.z) : v.norm = v.z ↔ v.x = 0 ∧ v.y = 0 := by
  refine ⟨fun h => ?_, fun h => norm_eq_z h.1 h.2 hz⟩
  have hsq := norm_mul_norm v
  rw [h] at hsq
  have hxy : v.x * v.x + v.y * v.y = 0 := by linarith
  exact (mul_self_add_mul_self_eq_zero).1 hxy

theorem norm_zero : (zero : Vec3 ℝ).norm = 0 :=
  (norm_eq_z Scalar.zero_eq Scalar.zero_eq Scalar.zero_eq.ge).trans Scalar.zero_eq

theorem norm_divide_norm (h : 0 < v.norm) : (v.divide v.norm).norm = 1 := by
  have hsum : (v.divide v.norm).norm * (v.divide v.norm).norm = 1 * 1 := by
    rw [norm_mul_norm]
    simp only [divide]
    rw [div_mul_div_comm, div_mul_div_comm, div_mul_div_comm, ← add_div, ← add_div, ← norm_mul_norm,
      div_self (mul_pos h h).ne', one_mul]
  exact (mul_self_inj (Real.sqrt_nonneg _) zero_le_one).1 hsum

end Vec3

end Relief
