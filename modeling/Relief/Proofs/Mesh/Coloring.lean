import Mathlib
import Relief.Mesh.Coloring
import Relief.Proofs.Color
import Relief.Proofs.Mesh.Facing
import Relief.Proofs.Number.Order

/-!
Colors of a sampled surface in exact numbers. Each vertex has a share of the range of heights and a share of
the steepest slope, and the color of a share has its three parts in the unit interval.
-/
namespace Relief

theorem Scalar.ranked_exact {K : Type} [ExactNumber K] : Scalar.Ranked (fun _ : K => True) id where
  lt_iff _ _ := Iff.rfl
  le_iff _ _ := Iff.rfl
  same_self _ := decide_eq_true rfl

namespace Mesh

open Scalar (zero_eq one_eq)

variable {K : Type} [ExactNumber K] {t : K}

/-! ### One color -/

theorem half_eq : (half : K) = 1 / 2 := by
  rw [half, one_eq, Scalar.ofNat_eq, Nat.cast_ofNat]

theorem inUnit_iff {c : Color K} : c.InUnit ↔
    (0 ≤ c.red ∧ c.red ≤ 1) ∧ (0 ≤ c.green ∧ c.green ≤ 1) ∧ 0 ≤ c.blue ∧ c.blue ≤ 1 := by
  rw [Color.InUnit, Color.toList, List.forall_mem_cons, List.forall_mem_cons, List.forall_mem_singleton,
    zero_eq, one_eq]

theorem mix_mem {a b : K} (ha : 0 ≤ a ∧ a ≤ 1) (hb : 0 ≤ b ∧ b ≤ 1) (ht : 0 ≤ t ∧ t ≤ 1) :
    0 ≤ a + t * (b - a) ∧ a + t * (b - a) ≤ 1 := by
  have hmix : a + t * (b - a) = (1 - t) * a + t * b := by ring
  have hrest : 0 ≤ 1 - t := sub_nonneg.2 ht.2
  rw [hmix]
  refine ⟨add_nonneg (mul_nonneg hrest ha.1) (mul_nonneg ht.1 hb.1), ?_⟩
  calc (1 - t) * a + t * b ≤ (1 - t) * 1 + t * 1 :=
        add_le_add (mul_le_mul_of_nonneg_left ha.2 hrest) (mul_le_mul_of_nonneg_left hb.2 ht.1)
    _ = 1 := by ring

/-- A shade lies between half of the color and the color made lighter. -/
theorem shade_mem {c : K} (h : 0 ≤ c ∧ c ≤ 1) (ht : 0 ≤ t ∧ t ≤ 1) :
    let dark := c * darkShare
    let light := c + (Scalar.one - c) * lightShare
    0 ≤ dark + t * (light - dark) ∧ dark + t * (light - dark) ≤ 1 := by
  have hdark : (darkShare : K) = 1 / 2 := by
    change (0.5 : K) = 1 / 2
    norm_num
  have hlight : (lightShare : K) = 3 / 10 := by
    change (0.3 : K) = 3 / 10
    norm_num
  intro dark light
  refine mix_mem ?_ ?_ ht
  · simp only [dark, hdark]
    constructor <;> linarith
  · simp only [light, hlight, one_eq]
    constructor <;> linarith

theorem inUnit_shade {base : Color K} (h : base.InUnit) (ht : 0 ≤ t ∧ t ≤ 1) :
    (shade base t).InUnit := by
  rw [inUnit_iff] at h ⊢
  exact ⟨shade_mem h.1 ht, shade_mem h.2.1 ht, shade_mem h.2.2 ht⟩

theorem hueChannel_mem (hue : K) : 0 ≤ hueChannel hue ∧ hueChannel hue ≤ 1 := by
  have h0 := Int.fract_nonneg hue
  rw [hueChannel]
  simp only [Scalar.fractional_eq, half_eq, one_eq, Scalar.ofNat_eq, Nat.cast_ofNat]
  split_ifs with h6 h2 h3
  · constructor <;> linarith
  · constructor <;> linarith
  · constructor <;> linarith
  · constructor <;> linarith

theorem inUnit_hueColor (hue : K) : (hueColor hue).InUnit :=
  inUnit_iff.2 ⟨hueChannel_mem _, hueChannel_mem _, hueChannel_mem _⟩

theorem inUnit_coolWarm (ht : 0 ≤ t ∧ t ≤ 1) : (coolWarm t).InUnit := by
  rw [inUnit_iff, coolWarm]
  simp only [half_eq, one_eq]
  refine ⟨ht, ?_, ?_⟩
  · norm_num
  · constructor <;> linarith

/-! ### Parts of the range of heights -/

section Heights

variable {m : Mesh K} {d : Domain K} {heights : Array (Option K)} {k : Nat}

/-- The part of the range that lies below a height. -/
def heightShare (m : Mesh K) (z : K) : K :=
  if Scalar.same m.zMax m.zMin then half
  else Scalar.clamp Scalar.zero Scalar.one ((z - m.zMin) / (m.zMax - m.zMin))

theorem getElem?_heightParameter (h : k < m.vertexCount) :
    m.heightParameter[k]? = some (m.heightShare (m.vertex k).z) := by
  rw [heightParameter, Array.getElem?_map, vertex, Array.getElem?_eq_getElem h]
  rfl

theorem heightShare_mem (m : Mesh K) (z : K) : 0 ≤ m.heightShare z ∧ m.heightShare z ≤ 1 := by
  rw [heightShare]
  split
  · rw [half_eq]
    norm_num
  · rw [zero_eq, one_eq]
    exact Scalar.clamp_mem zero_le_one _

theorem heightShare_mono (h : m.zMin ≤ m.zMax) : Monotone m.heightShare := by
  intro z w hzw
  rw [heightShare, heightShare]
  split
  · exact le_rfl
  · exact Scalar.clamp_mono (div_le_div_of_nonneg_right (sub_le_sub_right hzw _) (sub_nonneg.2 h))

theorem heightShare_ends (h : m.zMin ≠ m.zMax) :
    m.heightShare m.zMin = 0 ∧ m.heightShare m.zMax = 1 := by
  have hne : Scalar.same m.zMax m.zMin ≠ true := fun hs => h (of_decide_eq_true hs).symm
  rw [heightShare, if_neg hne, heightShare, if_neg hne, sub_self, zero_div,
    div_self (sub_ne_zero.2 h.symm), zero_eq, one_eq]
  exact ⟨Scalar.clamp_eq_self le_rfl zero_le_one, Scalar.clamp_eq_self zero_le_one le_rfl⟩

/-- The heights that are known, in the order of their vertices. -/
def known (d : Domain K) (heights : Array (Option K)) : List K :=
  (List.range (d.side * d.side)).filterMap fun k => (heights[k]?).join

theorem mem_known {z : K} : z ∈ known d heights ↔
    ∃ k < (ofHeights d heights).vertexCount, (ofHeights d heights).isFinite k = true ∧
      ((ofHeights d heights).vertex k).z = z := by
  have hcount : (ofHeights d heights).vertexCount = d.side * d.side := Array.size_ofFn
  have hfinite : ∀ k < d.side * d.side,
      (ofHeights d heights).isFinite k = ((heights[k]?).join).isSome := fun k hk => by
    simp only [isFinite, ofHeights, Array.getElem?_ofFn, dif_pos hk]
    rfl
  have hvertex : ∀ k < d.side * d.side,
      ((ofHeights d heights).vertex k).z = ((heights[k]?).join).getD Scalar.zero := fun k hk => by
    simp only [vertex, ofHeights, Array.getElem?_ofFn, dif_pos hk]
    rfl
  rw [known, List.mem_filterMap, hcount]
  constructor
  · rintro ⟨k, hk, hz⟩
    have hk := List.mem_range.1 hk
    refine ⟨k, hk, ?_, ?_⟩
    · rw [hfinite k hk, hz, Option.isSome_some]
    · rw [hvertex k hk, hz, Option.getD_some]
  · rintro ⟨k, hk, hf, rfl⟩
    rw [hfinite k hk] at hf
    obtain ⟨z, hz⟩ := Option.isSome_iff_exists.1 hf
    refine ⟨k, List.mem_range.2 hk, ?_⟩
    rw [hvertex k hk, hz, Option.getD_some]

/-- The ends of the range are heights of vertices that are not missing, if there are any such vertices. -/
theorem range_mem_known (h : known d heights ≠ []) :
    (ofHeights d heights).zMin ∈ known d heights ∧ (ofHeights d heights).zMax ∈ known d heights ∧
      ∀ z ∈ known d heights, (ofHeights d heights).zMin ≤ z ∧ z ≤ (ofHeights d heights).zMax := by
  obtain ⟨low, hlow, hleast, hle⟩ := Scalar.ranked_exact.least? (fun _ _ => trivial) h
  obtain ⟨high, hhigh, hgreatest, hge⟩ := Scalar.ranked_exact.greatest? (fun _ _ => trivial) h
  have hmin : (ofHeights d heights).zMin = low := congrArg (·.getD Scalar.zero) hleast
  have hmax : (ofHeights d heights).zMax = high := congrArg (·.getD Scalar.zero) hgreatest
  rw [hmin, hmax]
  exact ⟨hlow, hhigh, fun z hz => ⟨hle z hz, hge z hz⟩⟩

theorem range_of_known_eq_nil (h : known d heights = []) :
    (ofHeights d heights).zMin = (ofHeights d heights).zMax := by
  change (Scalar.least? (known d heights)).getD Scalar.zero =
    (Scalar.greatest? (known d heights)).getD Scalar.zero
  rw [h]
  rfl

theorem zMin_le_zMax (d : Domain K) (heights : Array (Option K)) :
    (ofHeights d heights).zMin ≤ (ofHeights d heights).zMax := by
  by_cases hnil : known d heights = []
  · exact (range_of_known_eq_nil hnil).le
  · obtain ⟨hmin, -, hrange⟩ := range_mem_known hnil
    exact (hrange _ hmin).2

end Heights

/-! ### Parts of the steepest slope -/

section Slopes

open Grid (point)

variable {m : Mesh ℝ} {d : Domain ℝ} {heights : Array (Option ℝ)} {i j k : Nat}

theorem gradient_nonneg (m : Mesh ℝ) (k : Nat) : 0 ≤ m.gradient k := Real.sqrt_nonneg _

/-- The slopes at the vertices inside the grid. -/
noncomputable def slopes (m : Mesh ℝ) : Array (Option ℝ) :=
  m.vertices.mapIdx fun k _ => if m.isInterior k then some (m.gradient k) else none

noncomputable def steepest (m : Mesh ℝ) : ℝ :=
  (Scalar.greatest? (m.slopes.toList.filterMap id)).getD Scalar.zero

theorem getElem?_slopes (h : k < m.vertexCount) :
    m.slopes[k]? = some (if m.isInterior k then some (m.gradient k) else none) := by
  rw [slopes, Array.getElem?_mapIdx, Array.getElem?_eq_getElem h]
  rfl

theorem mem_slopes {g : ℝ} : g ∈ m.slopes.toList.filterMap id ↔
    ∃ k < m.vertexCount, m.isInterior k = true ∧ m.gradient k = g := by
  have hsize : m.slopes.size = m.vertexCount := Array.size_mapIdx
  rw [List.mem_filterMap]
  constructor
  · rintro ⟨slope, hmem, hg⟩
    obtain ⟨k, hk⟩ := List.mem_iff_getElem?.1 hmem
    rw [Array.getElem?_toList] at hk
    have hlt : k < m.vertexCount := by
      rw [← hsize]
      exact (Array.getElem?_eq_some_iff.1 hk).1
    rw [getElem?_slopes hlt] at hk
    obtain rfl := Option.some.inj hk
    obtain ⟨hin, hg⟩ := Option.ite_none_right_eq_some.1 hg
    exact ⟨k, hlt, hin, Option.some.inj hg⟩
  · rintro ⟨k, hk, hin, rfl⟩
    have hslope := getElem?_slopes hk
    rw [if_pos hin] at hslope
    exact ⟨_, Array.mem_toList_iff.2 (Array.mem_of_getElem? hslope), rfl⟩

/-- The steepest slope is not exceeded, and there is a vertex with it unless it is zero. -/
theorem steepest_spec (m : Mesh ℝ) :
    (∀ k < m.vertexCount, m.isInterior k = true → m.gradient k ≤ m.steepest) ∧
    (0 < m.steepest → ∃ k < m.vertexCount, m.isInterior k = true ∧ m.gradient k = m.steepest) := by
  by_cases hnil : m.slopes.toList.filterMap id = []
  · refine ⟨fun k hk hin => ?_, fun hpos => ?_⟩
    · have hmem := mem_slopes.2 ⟨k, hk, hin, rfl⟩
      rw [hnil] at hmem
      cases hmem
    · rw [steepest, hnil] at hpos
      exact absurd hpos zero_eq.le.not_gt
  · obtain ⟨peak, hpeak, hgreatest, hle⟩ := Scalar.ranked_exact.greatest? (fun _ _ => trivial) hnil
    have hsteepest : m.steepest = peak := by
      rw [steepest, hgreatest]
      rfl
    rw [hsteepest]
    exact ⟨fun k hk hin => hle _ (mem_slopes.2 ⟨k, hk, hin, rfl⟩), fun _ => mem_slopes.1 hpeak⟩

/-- The part of the steepest slope that the slope at a vertex is. -/
noncomputable def slopeShare (m : Mesh ℝ) (k : Nat) : ℝ :=
  if m.isInterior k = true ∧ 0 < m.steepest then m.gradient k / m.steepest else 0

theorem gradient_div_steepest_mem (h : k < m.vertexCount) (hin : m.isInterior k = true)
    (hpos : 0 < m.steepest) : 0 ≤ m.gradient k / m.steepest ∧ m.gradient k / m.steepest ≤ 1 :=
  ⟨div_nonneg (gradient_nonneg m k) hpos.le, (div_le_one hpos).2 ((steepest_spec m).1 k h hin)⟩

theorem slopeShare_mem (h : k < m.vertexCount) : 0 ≤ m.slopeShare k ∧ m.slopeShare k ≤ 1 := by
  rw [slopeShare]
  split
  · next hin => exact gradient_div_steepest_mem h hin.1 hin.2
  · exact ⟨le_rfl, zero_le_one⟩

/-- No slope is clamped, since none exceeds the steepest. -/
theorem getElem?_slopeParameter (h : k < m.vertexCount) :
    m.slopeParameter[k]? = some (m.slopeShare k) := by
  change (m.slopes.map _)[k]? = _
  rw [Array.getElem?_map, getElem?_slopes h, Option.map_some, slopeShare]
  by_cases hin : m.isInterior k = true
  · rw [if_pos hin]
    change some (if Scalar.zero < m.steepest
      then Scalar.clamp Scalar.zero Scalar.one (m.gradient k / m.steepest) else Scalar.zero) = _
    by_cases hpos : 0 < m.steepest
    · obtain ⟨hlow, hhigh⟩ := gradient_div_steepest_mem h hin hpos
      rw [zero_eq, one_eq, if_pos hpos, if_pos ⟨hin, hpos⟩, Scalar.clamp_eq_self hlow hhigh]
    · rw [zero_eq, if_neg hpos, if_neg fun h => hpos h.2]
  · rw [if_neg hin, if_neg fun h => hin h.1]
    exact congrArg some zero_eq

theorem size_slopeParameter (m : Mesh ℝ) : m.slopeParameter.size = m.vertexCount :=
  Array.size_map.trans Array.size_mapIdx

theorem exists_slopeShare_eq_one_iff : (∃ k < m.vertexCount, m.slopeShare k = 1) ↔
    ∃ k < m.vertexCount, m.isInterior k = true ∧ m.gradient k ≠ 0 := by
  obtain ⟨hle, hattained⟩ := steepest_spec m
  constructor
  · rintro ⟨k, hk, hone⟩
    rw [slopeShare] at hone
    split at hone
    · next hin =>
      obtain ⟨u, hu, hinu, hgu⟩ := hattained hin.2
      exact ⟨u, hu, hinu, hgu ▸ hin.2.ne'⟩
    · exact absurd hone zero_ne_one
  · rintro ⟨k, hk, hin, hne⟩
    have hpos : 0 < m.steepest := ((gradient_nonneg m k).lt_of_ne' hne).trans_le (hle k hk hin)
    obtain ⟨u, hu, hinu, hgu⟩ := hattained hpos
    exact ⟨u, hu, by rw [slopeShare, if_pos ⟨hinu, hpos⟩, hgu, div_self hpos.ne']⟩

theorem isInterior_point (hj : j ≤ m.resolution) :
    m.isInterior (point (m.resolution + 1) i j) = true ↔
      (0 < i ∧ i < m.resolution) ∧ 0 < j ∧ j < m.resolution := by
  have hj := Nat.lt_succ_of_le hj
  simp only [isInterior, side, Grid.point_div hj, Grid.point_mod hj, Bool.and_eq_true,
    decide_eq_true_eq, and_assoc]

/-- The vertices that are not on the border. -/
theorem isInterior_iff (hn : m.vertexCount = (m.resolution + 1) ^ 2) :
    k < m.vertexCount ∧ m.isInterior k = true ↔ ∃ i j, i + 2 ≤ m.resolution ∧ j + 2 ≤ m.resolution ∧
      k = point (m.resolution + 1) (i + 1) (j + 1) := by
  rw [hn]
  constructor
  · rintro ⟨hk, hin⟩
    obtain ⟨i, hi, j, hj, rfl⟩ := Grid.exists_point hk
    obtain ⟨⟨hi0, hi⟩, hj0, hj⟩ := (isInterior_point (Nat.le_of_lt_succ hj)).1 hin
    obtain ⟨i, rfl⟩ := Nat.exists_eq_add_one.2 hi0
    obtain ⟨j, rfl⟩ := Nat.exists_eq_add_one.2 hj0
    exact ⟨i, j, hi, hj, rfl⟩
  · rintro ⟨i, j, hi, hj, rfl⟩
    exact ⟨Grid.point_lt (by omega) (by omega),
      (isInterior_point (by omega)).2 ⟨⟨i.succ_pos, hi⟩, j.succ_pos, hj⟩⟩

theorem slopeParameter_border (hn : m.vertexCount = (m.resolution + 1) ^ 2) (hi : i ≤ m.resolution)
    (hj : j ≤ m.resolution) (h : i = 0 ∨ i = m.resolution ∨ j = 0 ∨ j = m.resolution) :
    m.slopeParameter[point (m.resolution + 1) i j]? = some 0 := by
  have hlt := (Grid.point_lt (Nat.lt_succ_of_le hi) (Nat.lt_succ_of_le hj)).trans_eq hn.symm
  have hout : ¬m.isInterior (point (m.resolution + 1) i j) = true := by
    rw [isInterior_point hj]
    omega
  rw [getElem?_slopeParameter hlt, slopeShare, if_neg fun h => hout h.1]

theorem slopeParameter_one_iff (hn : m.vertexCount = (m.resolution + 1) ^ 2) :
    (∃ k : Nat, m.slopeParameter[k]? = some 1) ↔
      ∃ i j, i + 2 ≤ m.resolution ∧ j + 2 ≤ m.resolution ∧
        m.gradient (point (m.resolution + 1) (i + 1) (j + 1)) ≠ 0 := by
  have hshare : (∃ k : Nat, m.slopeParameter[k]? = some 1) ↔
      ∃ k < m.vertexCount, m.slopeShare k = 1 := by
    constructor
    · rintro ⟨k, hk⟩
      have hlt := (Array.getElem?_eq_some_iff.1 hk).1.trans_eq m.size_slopeParameter
      exact ⟨k, hlt, Option.some.inj ((getElem?_slopeParameter hlt).symm.trans hk)⟩
    · rintro ⟨k, hlt, hone⟩
      exact ⟨k, by rw [getElem?_slopeParameter hlt, hone]⟩
  rw [hshare, exists_slopeShare_eq_one_iff]
  constructor
  · rintro ⟨k, hk, hin, hne⟩
    obtain ⟨i, j, hi, hj, rfl⟩ := (isInterior_iff hn).1 ⟨hk, hin⟩
    exact ⟨i, j, hi, hj, hne⟩
  · rintro ⟨i, j, hi, hj, hne⟩
    obtain ⟨hk, hin⟩ := (isInterior_iff hn).2 ⟨i, j, hi, hj, rfl⟩
    exact ⟨_, hk, hin, hne⟩

/-- The slope at a vertex inside the grid is that between its neighbours, two steps apart on each line. -/
theorem gradient_point (hi : i + 2 ≤ d.resolution) (hj : j + 2 ≤ d.resolution) :
    let m := ofHeights d heights
    let z i j := (m.vertex (point (d.resolution + 1) i j)).z
    let a := (z (i + 2) (j + 1) - z i (j + 1)) / (2 * d.xStep)
    let b := (z (i + 1) (j + 2) - z (i + 1) j) / (2 * d.yStep)
    m.gradient (point (d.resolution + 1) (i + 1) (j + 1)) = √(a * a + b * b) := by
  have heast : point (d.resolution + 1) (i + 1) (j + 1) + (d.resolution + 1) =
      point (d.resolution + 1) (i + 2) (j + 1) := by
    simp only [point]
    ring
  have hwest : point (d.resolution + 1) (i + 1) (j + 1) - (d.resolution + 1) =
      point (d.resolution + 1) i (j + 1) := by
    refine Nat.sub_eq_of_eq_add ?_
    simp only [point]
    ring
  have hx : d.xAt (i + 2) - d.xAt i = 2 * d.xStep := by
    linear_combination d.xAt_succ_sub (i + 1) + d.xAt_succ_sub i
  have hy : d.yAt (j + 2) - d.yAt j = 2 * d.yStep := by
    linear_combination d.yAt_succ_sub (j + 1) + d.yAt_succ_sub j
  intro m z a b
  change Scalar.hypot
    (((m.vertex (_ + (d.resolution + 1))).z - (m.vertex (_ - (d.resolution + 1))).z) /
      ((m.vertex (_ + (d.resolution + 1))).x - (m.vertex (_ - (d.resolution + 1))).x))
    ((z (i + 1) (j + 2) - z (i + 1) j) /
      ((m.vertex (point _ (i + 1) (j + 2))).y - (m.vertex (point _ (i + 1) j)).y)) = _
  have hxEast : (m.vertex (point (d.resolution + 1) (i + 2) (j + 1))).x = d.xAt (i + 2) :=
    congrArg Vec3.x (vertex_point hi (by omega))
  have hxWest : (m.vertex (point (d.resolution + 1) i (j + 1))).x = d.xAt i :=
    congrArg Vec3.x (vertex_point (by omega) (by omega))
  have hyNorth : (m.vertex (point (d.resolution + 1) (i + 1) (j + 2))).y = d.yAt (j + 2) :=
    congrArg Vec3.y (vertex_point (by omega) hj)
  have hySouth : (m.vertex (point (d.resolution + 1) (i + 1) j)).y = d.yAt j :=
    congrArg Vec3.y (vertex_point (by omega) (by omega))
  rw [heast, hwest, hxEast, hxWest, hyNorth, hySouth, hx, hy]
  rfl

/-- A vertex has no slope exactly if its neighbours on either line through it are at one height. -/
theorem gradient_eq_zero_iff (hi : i + 2 ≤ d.resolution) (hj : j + 2 ≤ d.resolution) :
    let m := ofHeights d heights
    let z i j := (m.vertex (point (d.resolution + 1) i j)).z
    m.gradient (point (d.resolution + 1) (i + 1) (j + 1)) = 0 ↔
      z (i + 2) (j + 1) = z i (j + 1) ∧ z (i + 1) (j + 2) = z (i + 1) j := by
  intro m z
  obtain ⟨hx, hy⟩ := mul_ne_zero_iff.1 d.xStep_mul_yStep_pos.ne'
  rw [gradient_point hi hj, Real.sqrt_eq_zero (add_nonneg (mul_self_nonneg _) (mul_self_nonneg _)),
    mul_self_add_mul_self_eq_zero, div_eq_zero_iff, div_eq_zero_iff, sub_eq_zero, sub_eq_zero,
    or_iff_left (mul_ne_zero two_ne_zero hx), or_iff_left (mul_ne_zero two_ne_zero hy)]

end Slopes

/-! ### Colors of all vertices -/

section Colors

open Grid (point)

variable {d : Domain ℝ} {heights : Array (Option ℝ)}

theorem clamp_color {c : Color ℝ} (h : c.InUnit) :
    c.map (Scalar.clamp Scalar.zero Scalar.one) = c := by
  obtain ⟨⟨hr, hr'⟩, ⟨hg, hg'⟩, hb, hb'⟩ := inUnit_iff.1 h
  rw [Color.map, zero_eq, one_eq, Scalar.clamp_eq_self hr hr', Scalar.clamp_eq_self hg hg',
    Scalar.clamp_eq_self hb hb']

theorem mem_heightParameter {m : Mesh ℝ} {t : ℝ} (h : t ∈ m.heightParameter) : 0 ≤ t ∧ t ≤ 1 := by
  obtain ⟨v, -, rfl⟩ := Array.mem_map.1 h
  exact m.heightShare_mem v.z

theorem mem_slopeParameter {m : Mesh ℝ} {t : ℝ} (h : t ∈ m.slopeParameter) : 0 ≤ t ∧ t ≤ 1 := by
  obtain ⟨k, hk, rfl⟩ := Array.mem_iff_getElem.1 h
  have hcount : k < m.vertexCount := hk.trans_eq m.size_slopeParameter
  have hget := getElem?_slopeParameter hcount
  rw [Array.getElem?_eq_getElem hk] at hget
  rw [Option.some.inj hget]
  exact slopeShare_mem hcount

/-- Whatever the mode is, a vertex has its color from a share. -/
theorem inUnit_colors (m : Mesh ℝ) {mode : Color.Mode} (hmode : mode ≠ .solid) {base : Color ℝ}
    (hbase : base.InUnit) :
    ∃ cs, m.colors mode base = some cs ∧ cs.size = m.vertexCount ∧ ∀ c ∈ cs, c.InUnit := by
  have hheight : ∀ {color : ℝ → Color ℝ}, (∀ t, 0 ≤ t ∧ t ≤ 1 → (color t).InUnit) →
      (m.heightParameter.map color).size = m.vertexCount ∧
        ∀ c ∈ m.heightParameter.map color, c.InUnit := fun hcolor => by
    refine ⟨Array.size_map.trans Array.size_map, fun c hc => ?_⟩
    obtain ⟨t, ht, rfl⟩ := Array.mem_map.1 hc
    exact hcolor t (mem_heightParameter ht)
  cases mode with
  | solid => exact absurd rfl hmode
  | height => exact ⟨_, rfl, hheight fun t ht => inUnit_shade hbase ht⟩
  | rainbow => exact ⟨_, rfl, hheight fun t _ => inUnit_hueColor _⟩
  | coolWarm => exact ⟨_, rfl, hheight fun t ht => inUnit_coolWarm ht⟩
  | slope =>
    refine ⟨_, rfl, Array.size_map.trans m.size_slopeParameter, fun c hc => ?_⟩
    obtain ⟨t, ht, rfl⟩ := Array.mem_map.1 hc
    exact inUnit_shade hbase (mem_slopeParameter ht)

/-- What the colors of a surface and the shares behind them have to be. -/
structure Colored (m : Mesh ℝ) : Prop where
  /-- A color with shares in the unit interval is not clamped, and each vertex gets such a color. -/
  colors : ∀ mode ≠ Color.Mode.solid, ∀ base : Color ℝ, base.InUnit →
    base.map (Scalar.clamp Scalar.zero Scalar.one) = base ∧
      ∃ cs, m.colors mode base = some cs ∧ cs.size = m.vertexCount ∧ ∀ c ∈ cs, c.InUnit
  height_mono : ∀ u < m.vertexCount, ∀ v < m.vertexCount, (m.vertex u).z ≤ (m.vertex v).z →
    ∃ s t, m.heightParameter[u]? = some s ∧ m.heightParameter[v]? = some t ∧ s ≤ t
  height_ends : m.zMin ≠ m.zMax →
    (∃ k < m.vertexCount, m.isFinite k = true ∧ (m.vertex k).z = m.zMin) ∧
      (∃ k < m.vertexCount, m.isFinite k = true ∧ (m.vertex k).z = m.zMax) ∧
      ∀ k < m.vertexCount, ((m.vertex k).z = m.zMin → m.heightParameter[k]? = some 0) ∧
        ((m.vertex k).z = m.zMax → m.heightParameter[k]? = some 1)
  slope_mem : ∀ k < m.vertexCount, ∃ t, m.slopeParameter[k]? = some t ∧ 0 ≤ t ∧ t ≤ 1
  slope_border : ∀ i ≤ m.resolution, ∀ j ≤ m.resolution,
    i = 0 ∨ i = m.resolution ∨ j = 0 ∨ j = m.resolution →
      m.slopeParameter[point (m.resolution + 1) i j]? = some 0
  slope_one : (∃ k : Nat, m.slopeParameter[k]? = some 1) ↔
    ∃ i j, i + 2 ≤ m.resolution ∧ j + 2 ≤ m.resolution ∧
      m.gradient (point (m.resolution + 1) (i + 1) (j + 1)) ≠ 0
  /-- There is no slope at a vertex whose neighbours are at one height on either line through it. -/
  gradient_zero : ∀ i j, i + 2 ≤ m.resolution → j + 2 ≤ m.resolution →
    let z i j := (m.vertex (point (m.resolution + 1) i j)).z
    m.gradient (point (m.resolution + 1) (i + 1) (j + 1)) = 0 ↔
      z (i + 2) (j + 1) = z i (j + 1) ∧ z (i + 1) (j + 2) = z (i + 1) j

/-- In exact numbers every sampled surface is colored within the unit interval, by its heights from bottom to
top and by its slopes from none on the border to the steepest. -/
theorem colored_ofHeights (d : Domain ℝ) (heights : Array (Option ℝ)) :
    Colored (ofHeights d heights) where
  colors mode hmode base hbase := ⟨clamp_color hbase, inUnit_colors _ hmode hbase⟩
  height_mono u hu v hv hle := ⟨_, _, getElem?_heightParameter hu, getElem?_heightParameter hv,
    heightShare_mono (zMin_le_zMax d heights) hle⟩
  height_ends hne := by
    obtain ⟨hmin, hmax, -⟩ := range_mem_known fun hnil => hne (range_of_known_eq_nil hnil)
    obtain ⟨hlow, hhigh⟩ := heightShare_ends hne
    refine ⟨mem_known.1 hmin, mem_known.1 hmax, fun k hk => ⟨fun hz => ?_, fun hz => ?_⟩⟩
    · rw [getElem?_heightParameter hk, hz, hlow]
    · rw [getElem?_heightParameter hk, hz, hhigh]
  slope_mem k hk := ⟨_, getElem?_slopeParameter hk, slopeShare_mem hk⟩
  slope_border i hi j hj hborder := slopeParameter_border vertexCount_ofHeights hi hj hborder
  slope_one := slopeParameter_one_iff vertexCount_ofHeights
  gradient_zero i j hi hj := gradient_eq_zero_iff hi hj

/-- Over four cells with one raised vertex, each vertex has a color, and the ends of the range and the steepest
slope are reached. -/
theorem colored_ofHeights_raised :
    let d := { Domain.cell 2 two_pos with resolution := 2, resolution_pos := two_pos }
    let m := ofHeights d #[some 0, some 0, some 0, none, some 0, some 0, some 0, some 1, some 0]
    (∃ cs, m.colors .rainbow ⟨1, 0, 1 / 2⟩ = some cs ∧ cs.size = 9 ∧ ∀ c ∈ cs, c.InUnit) ∧
      (∃ k : Nat, m.heightParameter[k]? = some 0) ∧ (∃ k : Nat, m.heightParameter[k]? = some 1) ∧
      ∃ k : Nat, m.slopeParameter[k]? = some 1 := by
  intro d m
  let heights : Array (Option ℝ) :=
    #[some 0, some 0, some 0, none, some 0, some 0, some 0, some 1, some 0]
  have hm : Colored m := colored_ofHeights d heights
  have hcount : m.vertexCount = 9 := vertexCount_ofHeights
  have hne : m.zMin ≠ m.zMax := by
    have hlow : (0 : ℝ) ∈ known d heights :=
      mem_known.2 ⟨0, (by decide : 0 < 9).trans_eq hcount.symm, rfl, rfl⟩
    have hhigh : (1 : ℝ) ∈ known d heights :=
      mem_known.2 ⟨7, (by decide : 7 < 9).trans_eq hcount.symm, rfl, rfl⟩
    obtain ⟨-, -, hrange⟩ := range_mem_known (List.ne_nil_of_mem hlow)
    exact (((hrange 0 hlow).1.trans_lt one_pos).trans_le (hrange 1 hhigh).2).ne
  obtain ⟨⟨u, hu, -, hzu⟩, ⟨v, hv, -, hzv⟩, hends⟩ := hm.height_ends hne
  refine ⟨?_, ⟨u, (hends u hu).1 hzu⟩, ⟨v, (hends v hv).2 hzv⟩,
    hm.slope_one.2 ⟨0, 0, le_rfl, le_rfl, ?_⟩⟩
  · have hbase : (⟨1, 0, 1 / 2⟩ : Color ℝ).InUnit := by
      rw [inUnit_iff]
      norm_num
    obtain ⟨-, cs, hcs, hsize, hunit⟩ := hm.colors .rainbow (by decide) _ hbase
    exact ⟨cs, hcs, hsize.trans hcount, hunit⟩
  · intro hzero
    obtain ⟨heast, -⟩ := (hm.gradient_zero 0 0 le_rfl le_rfl).1 hzero
    have hz : (1 : ℝ) = 0 := heast
    exact one_ne_zero hz

end Colors

end Mesh

end Relief
