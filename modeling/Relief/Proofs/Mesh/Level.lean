import Mathlib
import Relief.Proofs.Mesh.Contour
import Relief.Proofs.Mesh.Sampling

/-!
Which levels have a line. The triangles of a grid hang together, so that a surface with points on both sides of
a level has a triangle with corners on both sides of it. On a sampled surface without missing points these
levels are those above the least height and not above the greatest.
-/
namespace Relief

/-! ### Triangles hang together -/

namespace Grid

variable {α : Type} {r u v : Nat} {f : Nat → α}

/-- What the corners of every triangle have in common, all points have in common. -/
theorem eq_of_forall_triangles (hr : 1 ≤ r)
    (h : ∀ t ∈ triangles r, ∀ u ∈ t.indices, ∀ v ∈ t.indices, f u = f v)
    (hu : u < (r + 1) ^ 2) (hv : v < (r + 1) ^ 2) : f u = f v := by
  have hlower : ∀ i < r, ∀ j < r, ∀ u ∈ (lower (r + 1) i j).indices,
      ∀ v ∈ (lower (r + 1) i j).indices, f u = f v := fun i hi j hj =>
    h _ (mem_triangles.2 ⟨i, hi, j, hj, .inl rfl⟩)
  have hupper : ∀ i < r, ∀ j < r, ∀ u ∈ (upper (r + 1) i j).indices,
      ∀ v ∈ (upper (r + 1) i j).indices, f u = f v := fun i hi j hj =>
    h _ (mem_triangles.2 ⟨i, hi, j, hj, .inr rfl⟩)
  have hright : ∀ j < r, f (point (r + 1) 0 (j + 1)) = f (point (r + 1) 0 j) := fun j hj =>
    hlower 0 hr j hj _ (by simp [Triangle.indices, lower]) _ (by simp [Triangle.indices, lower])
  have hup : ∀ i < r, ∀ j ≤ r, f (point (r + 1) (i + 1) j) = f (point (r + 1) i j) := by
    intro i hi j hj
    obtain hj | rfl := Nat.lt_or_eq_of_le hj
    · exact hlower i hi j hj _ (by simp [Triangle.indices, lower]) _
        (by simp [Triangle.indices, lower])
    · -- the last points of a line are corners of upper halves only
      obtain ⟨j, rfl⟩ := Nat.exists_eq_add_of_le' hr
      exact hupper i hi j (Nat.lt_succ_self j) _ (by simp [Triangle.indices, upper]) _
        (by simp [Triangle.indices, upper])
  have horigin : ∀ i ≤ r, ∀ j ≤ r, f (point (r + 1) i j) = f (point (r + 1) 0 0) := by
    intro i hi j hj
    induction i with
    | zero =>
      induction j with
      | zero => rfl
      | succ j ih => exact (hright j hj).trans (ih (Nat.le_of_succ_le hj))
    | succ i ih => exact (hup i hi j hj).trans (ih (Nat.le_of_succ_le hi))
  obtain ⟨i, hi, j, hj, rfl⟩ := exists_point hu
  obtain ⟨i', hi', j', hj', rfl⟩ := exists_point hv
  rw [horigin i (Nat.le_of_lt_succ hi) j (Nat.le_of_lt_succ hj),
    horigin i' (Nat.le_of_lt_succ hi') j' (Nat.le_of_lt_succ hj')]

end Grid

namespace Mesh

open Grid (point)

/-! ### Lines -/

section Lines

variable {α : Type} [Scalar α] {m : Mesh α} {level : α}

theorem segments_ne_nil_iff :
    (m.contour level).segments ≠ [] ↔ ∃ t ∈ m.triangles, m.Mixed level t := by
  rw [contour, Ne, List.filterMap_eq_nil_iff]
  push Not
  refine exists_congr fun t => and_congr_right fun _ => ⟨fun hs => ?_, fun hm => ?_⟩
  · by_contra hm
    exact hs (segment?_of_not_mixed hm)
  · obtain ⟨e, e', -, hs⟩ := segment?_of_mixed hm
    rw [hs]
    exact Option.some_ne_none _

/-- A surface without missing points has a line exactly at the levels with points on both sides. -/
theorem segments_ne_nil_iff_sides (hr : 1 ≤ m.resolution)
    (hf : ∀ k < (m.resolution + 1) ^ 2, m.isFinite k = true) :
    (m.contour level).segments ≠ [] ↔
      (∃ k < (m.resolution + 1) ^ 2, isAbove level (m.vertex k) = false) ∧
        ∃ k < (m.resolution + 1) ^ 2, isAbove level (m.vertex k) = true := by
  rw [segments_ne_nil_iff]
  constructor
  · rintro ⟨t, ht, -, hs⟩
    simp only [OneSided, not_forall] at hs
    obtain ⟨u, hu, v, hv, hne⟩ := hs
    have hu := Grid.indices_lt ht u hu
    have hv := Grid.indices_lt ht v hv
    have hav : isAbove level (m.vertex v) = !isAbove level (m.vertex u) := Bool.eq_not.2 (Ne.symm hne)
    cases hau : isAbove level (m.vertex u) with
    | false => exact ⟨⟨u, hu, hau⟩, v, hv, by rw [hav, hau]; rfl⟩
    | true => exact ⟨⟨v, hv, by rw [hav, hau]; rfl⟩, u, hu, hau⟩
  · rintro ⟨⟨u, hu, hau⟩, v, hv, hav⟩
    by_contra hnone
    push Not at hnone
    have heq : isAbove level (m.vertex u) = isAbove level (m.vertex v) := by
      refine Grid.eq_of_forall_triangles (f := fun k => isAbove level (m.vertex k)) hr ?_ hu hv
      intro t ht
      by_contra hs
      exact hnone t ht ⟨fun k hk => hf k (Grid.indices_lt ht k hk), hs⟩
    rw [hau, hav] at heq
    cases heq

end Lines

/-! ### Sampled surfaces -/

section Sampled

variable {m : Mesh Float} {d : Domain Float} {value : Nat → Nat → Option Float} {level : Float}

/-- The surfaces that sampling gives: of formulas, of functions, and of what calls of one came to. -/
inductive Sampled (m : Mesh Float) : Prop where
  | formula {f : Evaluator} {d : Domain Float} : ofEvaluator f d = .ok m → Sampled m
  | function {g : Float → Float → Except CallFailure Value} {d : Domain Float} :
    ofFunction g d = .ok m → Sampled m
  | outcomes {outcomes : List (Except CallFailure Value)} {d : Domain Float} :
    ofOutcomes outcomes d = .ok m → Sampled m

theorem not_mem_of_mapM_heightOf {outcomes : List (Except CallFailure Value)}
    {heights : List (Option Float)} (h : outcomes.mapM heightOf = .ok heights) (kind : String) :
    .error (.escaped kind) ∉ outcomes := by
  induction outcomes generalizing heights with
  | nil => exact List.not_mem_nil
  | cons o outcomes ih =>
    rw [List.mapM_cons] at h
    obtain ⟨z, ho, h⟩ := bind_eq_ok_iff.1 h
    obtain ⟨zs, hs, -⟩ := bind_eq_ok_iff.1 h
    rw [List.mem_cons, not_or]
    refine ⟨?_, ih hs⟩
    rintro rfl
    cases ho

theorem exists_samples_ofOutcomes {outcomes : List (Except CallFailure Value)}
    (h : ofOutcomes outcomes d = .ok m) : ∃ value, Samples m d value := by
  obtain ⟨heights, hm, -⟩ := bind_eq_ok_iff.1 h
  obtain ⟨m', hm', hs⟩ := samples_ofOutcomes (d := d) (not_mem_of_mapM_heightOf hm)
    fun i _ j _ => rfl
  rw [h] at hm'
  cases hm'
  exact ⟨_, hs⟩

theorem exists_samples_ofEvaluator {f : Evaluator} (h : ofEvaluator f d = .ok m) :
    ∃ value, Samples m d value := by
  obtain ⟨z, -, hm⟩ := bind_eq_ok_iff.1 h
  cases hm
  refine ⟨fun i j => z.values[point d.side i j]?, samples_ofHeights fun i _ j _ => ?_⟩
  rw [← bind_finite?, Array.getElem?_map]
  cases z.values[point d.side i j]? <;> rfl

theorem Sampled.exists_samples (h : Sampled m) : ∃ d value, Samples m d value := by
  cases h with
  | formula h => exact ⟨_, exists_samples_ofEvaluator h⟩
  | function h => exact ⟨_, exists_samples_ofOutcomes h⟩
  | outcomes h => exact ⟨_, exists_samples_ofOutcomes h⟩

/-! ### Heights -/

theorem Samples.z_vertex (h : Samples m d value) {i j : Nat} (hi : i ≤ d.resolution)
    (hj : j ≤ d.resolution) : (m.vertex (point d.side i j)).z =
      ((value i j).filter Float.isFinite).getD Scalar.zero := by
  obtain ⟨x, y, -, -, hv⟩ := h.vertex i hi j hj
  change m.vertices[point d.side i j]? = _ at hv
  rw [Mesh.vertex, hv]
  rfl

theorem Samples.isFinite_eq (h : Samples m d value) {i j : Nat} (hi : i ≤ d.resolution)
    (hj : j ≤ d.resolution) : m.isFinite (point d.side i j) = (value i j).any Float.isFinite := by
  have hm := h.finite i hi j hj
  change m.finite[point d.side i j]? = _ at hm
  rw [Mesh.isFinite, hm]
  rfl

/-- A vertex that is not missing has its height from the function. -/
theorem Samples.isHeight_vertex (h : Samples m d value) {k : Nat} (hk : k < (m.resolution + 1) ^ 2)
    (hf : m.isFinite k = true) : IsHeight d value (m.vertex k).z := by
  rw [h.resolution] at hk
  obtain ⟨i, hi, j, hj, rfl⟩ := Grid.exists_point hk
  have hi := Nat.le_of_lt_succ hi
  have hj := Nat.le_of_lt_succ hj
  change m.isFinite (point d.side i j) = true at hf
  rw [h.isFinite_eq hi hj] at hf
  obtain ⟨z, hz, hzf⟩ := (Option.any_eq_true _ _).1 hf
  have hzv := h.z_vertex hi hj
  rw [hz, Option.filter_some_pos hzf] at hzv
  refine ⟨i, hi, j, hj, ?_⟩
  rw [hz, Option.filter_some_pos hzf]
  exact congrArg some hzv.symm

theorem Samples.exists_vertex (h : Samples m d value) {z : Float} (hz : IsHeight d value z) :
    ∃ k < (m.resolution + 1) ^ 2, m.isFinite k = true ∧ (m.vertex k).z = z := by
  obtain ⟨i, hi, j, hj, hz⟩ := hz
  refine ⟨point d.side i j, ?_, ?_, ?_⟩
  · rw [h.resolution]
    exact Grid.point_lt (Nat.lt_succ_of_le hi) (Nat.lt_succ_of_le hj)
  · obtain ⟨hv, hzf⟩ := Option.filter_eq_some_iff.1 hz
    rw [h.isFinite_eq hi hj, hv]
    exact hzf
  · rw [h.z_vertex hi hj, hz]
    rfl

/-- There are heights on both sides of a level exactly if it is above the least and not above the greatest. -/
theorem Samples.sides_iff (h : Samples m d value)
    (hf : ∀ k < (m.resolution + 1) ^ 2, m.isFinite k = true) (hl : level.isFinite = true) :
    ((∃ k < (m.resolution + 1) ^ 2, isAbove level (m.vertex k) = false) ∧
      ∃ k < (m.resolution + 1) ^ 2, isAbove level (m.vertex k) = true) ↔
      m.zMin < level ∧ level ≤ m.zMax := by
  have hr := Scalar.ranked_isFinite
  obtain ⟨hmin, hmax, -, -⟩ := h.range _
    (h.isHeight_vertex (Nat.pow_pos m.resolution.succ_pos) (hf 0 (Nat.pow_pos m.resolution.succ_pos)))
  have hfmin := isFinite_of_isHeight hmin
  have hfmax := isFinite_of_isHeight hmax
  simp only [← Bool.not_eq_true, isAbove_iff]
  rw [hr.lt_iff hfmin hl, hr.le_iff hl hfmax]
  constructor
  · rintro ⟨⟨u, hu, hau⟩, v, hv, hav⟩
    have hzu := h.isHeight_vertex hu (hf u hu)
    have hzv := h.isHeight_vertex hv (hf v hv)
    obtain ⟨-, -, hle, -⟩ := h.range _ hzu
    obtain ⟨-, -, -, hge⟩ := h.range _ hzv
    rw [hr.le_iff hl (isFinite_of_isHeight hzu), not_le] at hau
    rw [hr.le_iff hfmin (isFinite_of_isHeight hzu)] at hle
    rw [hr.le_iff hl (isFinite_of_isHeight hzv)] at hav
    rw [hr.le_iff (isFinite_of_isHeight hzv) hfmax] at hge
    exact ⟨hle.trans_lt hau, hav.trans hge⟩
  · rintro ⟨hlow, hhigh⟩
    obtain ⟨u, hu, -, hzu⟩ := h.exists_vertex hmin
    obtain ⟨v, hv, -, hzv⟩ := h.exists_vertex hmax
    refine ⟨⟨u, hu, ?_⟩, v, hv, ?_⟩
    · rw [hzu, hr.le_iff hl hfmin, not_le]
      exact hlow
    · rw [hzv, hr.le_iff hl hfmax]
      exact hhigh

/-- On a sampled surface without missing points there is a line at a level exactly if the level is above the
least height and not above the greatest. -/
theorem contour_nonempty_iff (h : Sampled m) (hf : ∀ k < m.vertexCount, m.isFinite k = true)
    (hl : level.isFinite = true) :
    (m.contour level).segments ≠ [] ↔ m.zMin < level ∧ level ≤ m.zMax := by
  obtain ⟨d, value, hs⟩ := h.exists_samples
  have hr : 1 ≤ m.resolution := by
    rw [hs.resolution]
    exact d.resolution_pos
  rw [vertexCount, hs.size_vertices, ← hs.resolution] at hf
  rw [segments_ne_nil_iff_sides hr hf, hs.sides_iff hf hl]

/-- Over one cell that rises to a corner, the line at the greatest height is that corner's, and there is none
at the least height. -/
theorem contour_nonempty_iff_corner :
    ∃ d m, ofOutcomes [.ok (.float 0), .ok (.float 1), .ok (.int 1), .ok (.float 2)] d = .ok m ∧
      (∀ k < m.vertexCount, m.isFinite k = true) ∧ (m.zMin = 0 ∧ m.zMax = 2) ∧
      (m.contour 2).segments ≠ [] ∧ (m.contour 0).segments = [] := by
  let d : Domain Float := { Domain.standard with resolution := 1, resolution_pos := Nat.one_pos }
  let m := ofHeights d #[some 0, some 1, some 1, some 2]
  have hm : ofOutcomes [.ok (.float 0), .ok (.float 1), .ok (.int 1), .ok (.float 2)] d = .ok m := by
    rfl
  have hf : ∀ k < m.vertexCount, m.isFinite k = true := by decide
  have htop : (m.contour 2).segments ≠ [] ↔ m.zMin < 2 ∧ 2 ≤ m.zMax :=
    contour_nonempty_iff (.outcomes hm) hf (by decide)
  have hbottom : (m.contour 0).segments ≠ [] ↔ m.zMin < 0 ∧ 0 ≤ m.zMax :=
    contour_nonempty_iff (.outcomes hm) hf (by decide)
  refine ⟨d, m, hm, hf, ⟨rfl, rfl⟩, htop.2 (by decide), ?_⟩
  exact not_not.1 fun hn => absurd (hbottom.1 hn) (by decide)

end Sampled

end Mesh

end Relief
