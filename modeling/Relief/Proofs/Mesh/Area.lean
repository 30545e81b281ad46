import Mathlib
import Relief.Mesh.Measure
import Relief.Proofs.Mesh.Level
import Relief.Proofs.Mesh.UnitLength

/-!
How large a surface is. In exact numbers each triangle is at least as large as what lies below it, and exactly
as large if it is level, so that the whole surface compares with its domain in the same way.
-/
namespace Relief

namespace Mesh

variable {d : Domain ℝ} {heights : Array (Option ℝ)} {t : Triangle}

/-! ### One triangle -/

/-- A triangle is as large as what lies below it exactly if its corners are at one height. -/
theorem norm_faceVector_eq_iff (ht : t ∈ (ofHeights d heights).triangles) :
    ((ofHeights d heights).faceVector t).norm = d.xStep * d.yStep ↔
      ∀ u ∈ t.indices, ∀ v ∈ t.indices,
        ((ofHeights d heights).vertex u).z = ((ofHeights d heights).vertex v).z := by
  have hz := faceVector_z ht
  have hpos := d.xStep_mul_yStep_pos
  rw [← hz] at hpos ⊢
  rw [Vec3.norm_eq_z_iff hpos.le]
  refine ⟨fun ⟨hx, hy⟩ => ?_, faceVector_of_flat⟩
  obtain ⟨hb, hc⟩ := Vec3.level_of_cross_upright hx hy hpos.ne'
  rw [Vec3.sub_z, sub_eq_zero] at hb hc
  have hall : ∀ u ∈ t.indices,
      ((ofHeights d heights).vertex u).z = ((ofHeights d heights).vertex t.a).z := by
    rw [Triangle.indices, List.forall_mem_cons, List.forall_mem_cons, List.forall_mem_singleton]
    exact ⟨rfl, hb, hc⟩
  exact fun u hu v hv => (hall u hu).trans (hall v hv).symm

theorem step_le_norm_faceVector (ht : t ∈ (ofHeights d heights).triangles) :
    d.xStep * d.yStep ≤ ((ofHeights d heights).faceVector t).norm :=
  (faceVector_z ht).symm.trans_le (Vec3.z_le_norm _)

/-! ### The whole surface -/

/-- The cells of the grid make up the domain. -/
theorem sum_steps (d : Domain ℝ) :
    ((Relief.triangles d.resolution).map fun _ => d.xStep * d.yStep).sum / 2 = d.xSpan * d.ySpan := by
  have hr : (d.resolution : ℝ) ≠ 0 := Nat.cast_ne_zero.2 d.resolution_pos.ne'
  rw [List.map_const', List.sum_replicate, Grid.length_triangles, nsmul_eq_mul, Domain.xStep,
    Domain.yStep, Scalar.ofNat_eq]
  push_cast
  field_simp

theorem surfaceArea_eq (d : Domain ℝ) (heights : Array (Option ℝ)) :
    (ofHeights d heights).surfaceArea =
      ((ofHeights d heights).triangles.map fun t => ((ofHeights d heights).faceVector t).norm).sum / 2 := by
  rw [surfaceArea, pairwiseSum_eq_sum, Scalar.ofNat_eq, Nat.cast_ofNat]

/-- In exact numbers a surface is at least as large as its domain, and exactly as large only if all its
vertices are at one height. -/
theorem surfaceArea_ge_domain (d : Domain ℝ) (heights : Array (Option ℝ)) :
    let m := ofHeights d heights
    d.xSpan * d.ySpan ≤ m.surfaceArea ∧
      (m.surfaceArea = d.xSpan * d.ySpan ↔
        ∀ u < m.vertexCount, ∀ v < m.vertexCount, (m.vertex u).z = (m.vertex v).z) := by
  intro m
  have hle : ∀ t ∈ m.triangles, d.xStep * d.yStep ≤ (m.faceVector t).norm := fun t ht =>
    step_le_norm_faceVector ht
  have hbase : d.xSpan * d.ySpan = (m.triangles.map fun _ => d.xStep * d.yStep).sum / 2 :=
    (sum_steps d).symm
  rw [vertexCount_ofHeights, surfaceArea_eq, hbase]
  refine ⟨div_le_div_of_nonneg_right (List.sum_le_sum hle) zero_le_two, fun heq => ?_, fun hflat => ?_⟩
  · have hface : ∀ t ∈ m.triangles, (m.faceVector t).norm = d.xStep * d.yStep := by
      -- one triangle that is larger than what lies below it would make the whole sum larger
      by_contra hne
      push Not at hne
      obtain ⟨t, ht, hne⟩ := hne
      have hlt := List.sum_lt_sum _ _ hle ⟨t, ht, (hle t ht).lt_of_ne' hne⟩
      exact (div_lt_div_of_pos_right hlt two_pos).ne' heq
    intro u hu v hv
    exact Grid.eq_of_forall_triangles (f := fun k => (m.vertex k).z) d.resolution_pos
      (fun t ht => (norm_faceVector_eq_iff ht).1 (hface t ht)) hu hv
  · have hface : ∀ t ∈ m.triangles, (m.faceVector t).norm = d.xStep * d.yStep := fun t ht =>
      (norm_faceVector_eq_iff ht).2 fun u hu v hv =>
        hflat u (Grid.indices_lt ht u hu) v (Grid.indices_lt ht v hv)
    rw [List.map_congr_left hface]

/-- Over a cell with sides of length two, a surface at one height has area four, also where corners are missing,
and one that goes up and down has more. -/
theorem surfaceArea_ge_domain_cell :
    (ofHeights (Domain.cell 2 two_pos) #[some 0, none, none, some 0]).surfaceArea = 4 ∧
      4 < (ofHeights (Domain.cell 2 two_pos) #[some 5, none, some (-3), some 0]).surfaceArea := by
  have hspan : (Domain.cell 2 two_pos).xSpan * (Domain.cell 2 two_pos).ySpan = 4 := by
    change ((2 : ℝ) - 0) * (2 - 0) = 4
    norm_num
  constructor
  · obtain ⟨-, heq⟩ := surfaceArea_ge_domain (Domain.cell 2 two_pos) #[some 0, none, none, some 0]
    rw [← hspan, heq, vertexCount_ofHeights]
    have hz : ∀ u < (1 + 1) ^ 2,
        ((ofHeights (Domain.cell 2 two_pos) #[some 0, none, none, some 0]).vertex u).z = 0 := by
      intro u hu
      interval_cases u
      · rfl
      · exact Scalar.zero_eq
      · exact Scalar.zero_eq
      · rfl
    exact fun u hu v hv => (hz u hu).trans (hz v hv).symm
  · obtain ⟨hle, heq⟩ :=
      surfaceArea_ge_domain (Domain.cell 2 two_pos) #[some 5, none, some (-3), some 0]
    rw [← hspan]
    refine hle.lt_of_ne' fun h => ?_
    have h02 : (5 : ℝ) = -3 := heq.1 h 0 (by decide) 2 (by decide)
    norm_num at h02

end Mesh

end Relief
