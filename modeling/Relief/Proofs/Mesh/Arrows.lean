import Mathlib
import Relief.Mesh.Normal

/-!
Which vertices of a surface show their directions. They are evenly spaced, and there are no more of them than
asked for.
-/
namespace Relief.Mesh

variable {α : Type} [Scalar α] {m : Mesh α} {target : Int} {step k : Nat}

/-! ### Steps -/

theorem arrowStep_eq (count : Nat) (h : 1 ≤ target) :
    arrowStep count target = some (max 1 ⌈(count : ℚ) / target⌉₊) := by
  obtain ⟨n, rfl⟩ := Int.eq_ofNat_of_zero_le (zero_le_one.trans h)
  have hn : (n : Int) ≠ 0 := ne_of_gt h
  have hceil : ⌈(count : ℚ) / ((n : Int) : ℚ)⌉ = -((-(count : Int)).fdiv n) := by
    rw [Int.fdiv_eq_ediv_of_nonneg _ n.cast_nonneg]
    exact Rat.ceil_intCast_div_natCast count n
  rw [arrowStep, if_neg hn, ← Int.ceil_toNat, hceil]

theorem arrowStep_pos {count : Nat} (h : arrowStep count target = some step) : 0 < step := by
  rw [arrowStep, Option.ite_none_left_eq_some] at h
  obtain ⟨-, h⟩ := h
  cases h
  exact lt_max_of_lt_left one_pos

theorem le_step_mul (count : Nat) (h : 1 ≤ target) :
    (count : Int) ≤ max 1 ⌈(count : ℚ) / target⌉₊ * target := by
  have hpos : (0 : ℚ) < target := Int.cast_pos.2 h
  have hle : (count : ℚ) / target ≤ (max 1 ⌈(count : ℚ) / target⌉₊ : Nat) :=
    (Nat.le_ceil _).trans (Nat.cast_le.2 (le_max_right _ _))
  rw [div_le_iff₀ hpos] at hle
  exact_mod_cast hle

/-- How many multiples of a step there are below a number. -/
theorem lt_div_iff_mul_lt (hs : 0 < step) {count i : Nat} :
    i < (count + step - 1) / step ↔ i * step < count := by
  rw [Nat.lt_div_iff_mul_lt hs]
  omega

theorem steps_le (hs : 0 < step) {count : Nat} (h : (count : Int) ≤ step * target) :
    (((count + step - 1) / step : Nat) : Int) ≤ target := by
  have hlt : (count : Int) + step - 1 < (target + 1) * step := by
    have := Int.natCast_pos.2 hs
    linarith
  have hcast : ((count + step - 1 : Nat) : Int) = count + step - 1 := by omega
  rw [Int.natCast_ediv, hcast]
  exact Int.lt_add_one_iff.1 (Int.ediv_lt_of_lt_mul (Int.natCast_pos.2 hs) hlt)

/-! ### Directions -/

theorem size_addFaces (faces : List (Triangle × Vec3 α)) (corner : Triangle → Nat)
    (sums : Array (Vec3 α)) : (addFaces faces corner sums).size = sums.size := by
  induction faces generalizing sums with
  | nil => rfl
  | cons face faces ih => exact (ih _).trans Array.size_modify

/-- Every vertex has a direction. -/
theorem size_vertexNormals (m : Mesh α) : m.vertexNormals.size = m.vertexCount := by
  simp only [vertexNormals, faceSums, List.foldl_cons, List.foldl_nil, Array.size_map, size_addFaces,
    Array.size_replicate]

/-- The arrows are in the order of their vertices. A vertex whose number is a multiple of the step has one if
it has a value and a direction. -/
theorem arrows_of_arrowStep (h : arrowStep m.vertexCount target = some step) :
    ∃ arrows, m.arrows target = some arrows ∧
      arrows.length ≤ (m.vertexCount + step - 1) / step ∧
      (arrows.map Arrow.index).Pairwise (· < ·) ∧
      ∀ a, a ∈ arrows ↔ a.index < m.vertexCount ∧ step ∣ a.index ∧ m.isFinite a.index = true ∧
        a.direction.isZero = false ∧ m.vertices[a.index]? = some a.origin ∧
        m.vertexNormals[a.index]? = some a.direction := by
  have hs := arrowStep_pos h
  refine ⟨_, by rw [arrows, h]; rfl, ?_, ?_, fun a => ?_⟩
  · exact (List.length_filterMap_le _ _).trans (List.length_range).le
  · rw [List.pairwise_map]
    apply List.Pairwise.filterMap _ _ List.pairwise_lt_range
    intro i j hij a ha b hb
    rw [Option.ite_none_right_eq_some] at ha hb
    obtain ⟨-, ha⟩ := ha
    obtain ⟨-, hb⟩ := hb
    cases ha
    cases hb
    exact Nat.mul_lt_mul_of_pos_right hij hs
  · simp only [List.mem_filterMap, List.mem_range, Option.ite_none_right_eq_some, Bool.and_eq_true,
      Bool.not_eq_true', Option.some.injEq, lt_div_iff_mul_lt hs]
    constructor
    · rintro ⟨i, hi, ⟨hf, hn⟩, rfl⟩
      have hi' : i * step < m.vertexNormals.size := by rwa [size_vertexNormals]
      refine ⟨hi, Nat.dvd_mul_left _ _, hf, hn, ?_, ?_⟩
      · rw [vertex, Array.getElem?_eq_getElem hi]
        rfl
      · rw [Array.getElem?_eq_getElem hi']
        rfl
    · rintro ⟨hk, ⟨i, hi⟩, hf, hz, ho, hn⟩
      obtain ⟨k, origin, direction⟩ := a
      rw [Nat.mul_comm] at hi
      subst hi
      refine ⟨i, hk, ⟨hf, ?_⟩, ?_⟩
      · rw [hn]
        exact hz
      · rw [hn, vertex, ho]
        rfl

/-- There are at most as many arrows as asked for. They are at increasing vertices, which are those with a value
and a direction among the multiples of a step, and each starts at its vertex and has the direction there. The
step is the number of vertices for each arrow asked for, rounded up. -/
theorem arrows_evenly_spaced (m : Mesh α) {target : Int} (h : 1 ≤ target) :
    ∃ arrows, m.arrows target = some arrows ∧ arrows.length ≤ target ∧
      (arrows.map Arrow.index).Pairwise (· < ·) ∧
      (∀ k, k ∈ arrows.map Arrow.index ↔
        k < m.vertexCount ∧ max 1 ⌈(m.vertexCount : ℚ) / target⌉₊ ∣ k ∧ m.isFinite k = true ∧
          ∃ n, m.vertexNormals[k]? = some n ∧ n.isZero = false) ∧
      ∀ a ∈ arrows, m.vertices[a.index]? = some a.origin ∧
        m.vertexNormals[a.index]? = some a.direction := by
  have hstep := arrowStep_eq m.vertexCount h
  obtain ⟨arrows, ha, hlen, hlt, hmem⟩ := arrows_of_arrowStep hstep
  refine ⟨arrows, ha, ?_, hlt, fun k => ?_, fun a h => ((hmem a).1 h).2.2.2.2⟩
  · exact (Int.ofNat_le.2 hlen).trans (steps_le (arrowStep_pos hstep) (le_step_mul m.vertexCount h))
  · rw [List.mem_map]
    constructor
    · rintro ⟨a, hin, rfl⟩
      obtain ⟨hk, hd, hf, hz, -, hn⟩ := (hmem a).1 hin
      exact ⟨hk, hd, hf, a.direction, hn, hz⟩
    · rintro ⟨hk, hd, hf, n, hn, hz⟩
      refine ⟨⟨k, m.vertices[k], n⟩, (hmem _).2 ⟨hk, hd, hf, hz, ?_, hn⟩, rfl⟩
      exact Array.getElem?_eq_getElem hk

/-- Of nine vertices every third has an arrow if four are asked for, unless it has no value. -/
theorem arrows_evenly_spaced_nine :
    let d : Domain Float := { Domain.standard with resolution := 2, resolution_pos := Nat.two_pos }
    let m := ofHeights d #[some 0.0, some 1.0, none, none, some 4.0, some 2.0, some 0.5, some 1.0, some 3.0]
    (1 : Int) ≤ 4 ∧ ∃ arrows, m.arrows 4 = some arrows ∧ arrows.length ≤ (4 : Int) ∧
      arrows.map Arrow.index = [0, 6] := by
  intro d m
  have hpos : (1 : Int) ≤ 4 := by decide
  obtain ⟨arrows, h, hlen, -⟩ := arrows_evenly_spaced m hpos
  have hindex : (m.arrows 4).map (·.map Arrow.index) = some [0, 6] := by decide +kernel
  rw [h] at hindex
  exact ⟨hpos, arrows, h, hlen, Option.some.inj hindex⟩

end Relief.Mesh
