import Mathlib
import Relief.Mesh.Normal
import Relief.Proofs.Mesh.Triangulation
import Relief.Proofs.Number.Exact

/-!
Which way a sampled surface faces. In exact numbers the vectors of all triangles point up, equally far
whatever the heights are, and so do their sums around the vertices.
-/
namespace Relief

open Grid (point lower upper)

/-! ### The steps of a grid -/

namespace Domain

section Steps

variable {α : Type} [Scalar α]

def xStep (d : Domain α) : α := d.xSpan / Scalar.ofNat d.resolution
def yStep (d : Domain α) : α := d.ySpan / Scalar.ofNat d.resolution

end Steps

variable {K : Type} [ExactNumber K]

theorem line_succ_sub (low span : K) (resolution k : Nat) :
    line low span resolution (k + 1) - line low span resolution k = span / Scalar.ofNat resolution := by
  simp only [line, Scalar.ofNat_eq]
  push_cast
  ring

theorem xAt_succ_sub (d : Domain K) (i : Nat) : d.xAt (i + 1) - d.xAt i = d.xStep :=
  line_succ_sub _ _ _ _

theorem yAt_succ_sub (d : Domain K) (j : Nat) : d.yAt (j + 1) - d.yAt j = d.yStep :=
  line_succ_sub _ _ _ _

theorem step_pos {low high : K} (h : low < high) {resolution : Nat} (hr : 0 < resolution) :
    0 < (high - low) / Scalar.ofNat resolution := by
  rw [Scalar.ofNat_eq]
  exact div_pos (sub_pos.2 h) (Nat.cast_pos.2 hr)

theorem xStep_mul_yStep_pos (d : Domain K) : 0 < d.xStep * d.yStep :=
  mul_pos (step_pos d.xmin_lt_xmax d.resolution_pos) (step_pos d.ymin_lt_ymax d.resolution_pos)

/-- A single square cell. -/
noncomputable def cell (side : ℝ) (h : 0 < side) : Domain ℝ where
  xmin := 0
  xmax := side
  ymin := 0
  ymax := side
  resolution := 1
  x_finite := ⟨rfl, rfl⟩
  y_finite := ⟨rfl, rfl⟩
  xmin_lt_xmax := h
  ymin_lt_ymax := h
  resolution_pos := Nat.one_pos

theorem xStep_cell {side : ℝ} (h : 0 < side) : (cell side h).xStep = side := by
  change (side - 0) / ((1 : Nat) : ℝ) = side
  rw [Nat.cast_one, div_one, sub_zero]

theorem yStep_cell {side : ℝ} (h : 0 < side) : (cell side h).yStep = side := xStep_cell h

end Domain

namespace Vec3

variable {K : Type} [ExactNumber K]

/-- The vector of a triangle is the same from two of its corners. -/
theorem cross_turned (u v w : Vec3 K) : (w - v).cross (u - v) = (v - u).cross (w - u) := by
  simp only [cross, sub_x, sub_y, sub_z, mk.injEq]
  refine ⟨?_, ?_, ?_⟩ <;> ring

end Vec3

namespace Mesh

/-! ### Triangles -/

section Triangles

variable {K : Type} [ExactNumber K]
variable {d : Domain K} {heights : Array (Option K)} {i j : Nat} {t : Triangle}

theorem vertexCount_ofHeights : (ofHeights d heights).vertexCount = (d.resolution + 1) ^ 2 :=
  Array.size_ofFn.trans (Nat.pow_two _).symm

theorem vertex_point (hi : i ≤ d.resolution) (hj : j ≤ d.resolution) :
    (ofHeights d heights).vertex (point (d.resolution + 1) i j) = ⟨d.xAt i, d.yAt j,
      ((heights[point (d.resolution + 1) i j]?).join).getD Scalar.zero⟩ := by
  change (ofHeights d heights).vertex (point d.side i j) = _
  rw [vertex, getElem?_vertices_ofHeights hi hj]
  rfl

/-- Every triangle points up as far as the cells of the grid are large. -/
theorem faceVector_z (ht : t ∈ (ofHeights d heights).triangles) :
    ((ofHeights d heights).faceVector t).z = d.xStep * d.yStep := by
  obtain ⟨i, hi, j, hj, rfl | rfl⟩ := (Grid.mem_triangles (r := d.resolution)).1 ht
  all_goals
    have hi' : i + 1 ≤ d.resolution := hi
    have hj' : j + 1 ≤ d.resolution := hj
    simp only [faceVector, lower, upper, vertex_point, hi.le, hj.le, hi', hj', Vec3.cross, Vec3.sub_x,
      Vec3.sub_y, ← d.xAt_succ_sub i, ← d.yAt_succ_sub j]
    ring

end Triangles

/-! ### Sums around a vertex -/

section Sums

variable {α K : Type} [ExactNumber K] {k : Nat}

/-- How many corners of triangles meet at a vertex. -/
def valence (m : Mesh α) (k : Nat) : Nat := (m.triangles.map fun t => t.indices.count k).sum

/-- What adding the vectors of triangles, each at one corner, does to a linear function of the sums. -/
theorem map_addFaces (f : Vec3 K → K) (hf : ∀ u v, f (u + v) = f u + f v) (w : Triangle → Vec3 K)
    (corner : Triangle → Nat) (ts : List Triangle) (sums : Array (Vec3 K)) :
    ((addFaces (ts.map fun t => (t, w t)) corner sums)[k]?).map f =
      ((sums[k]?).map f).map (· + (ts.map fun t => if corner t = k then f (w t) else 0).sum) := by
  induction ts generalizing sums with
  | nil => cases h : sums[k]? <;> simp [addFaces, h]
  | cons t ts ih =>
    rw [List.map_cons, addFaces, List.foldl_cons]
    refine (ih _).trans ?_
    rw [Array.getElem?_modify, List.map_cons, List.sum_cons]
    split
    · cases sums[k]? <;> simp [hf, add_assoc]
    · simp

/-- The sum at a vertex has the vector of a triangle once for each corner that the triangle has there. -/
theorem map_faceSums (m : Mesh K) (f : Vec3 K → K) (hf : ∀ u v, f (u + v) = f u + f v)
    (hz : f Vec3.zero = 0) (hk : k < m.vertexCount) : (m.faceSums[k]?).map f =
      some (m.triangles.map fun t => (t.indices.count k : K) * f (m.faceVector t)).sum := by
  have hcount : ∀ t : Triangle, (t.indices.count k : K) * f (m.faceVector t) =
      (if t.a = k then f (m.faceVector t) else 0) + (if t.b = k then f (m.faceVector t) else 0) +
        (if t.c = k then f (m.faceVector t) else 0) := by
    intro t
    simp only [Triangle.indices, List.count_cons, List.count_nil, beq_iff_eq]
    split_ifs <;> push_cast <;> ring
  simp only [hcount, List.sum_map_add]
  rw [faceSums]
  simp only [List.foldl_cons, List.foldl_nil, map_addFaces f hf, Array.getElem?_replicate, if_pos hk,
    Option.map_some, hz, zero_add]

theorem map_faceSums_of_const (m : Mesh K) (f : Vec3 K → K) (hf : ∀ u v, f (u + v) = f u + f v)
    (hz : f Vec3.zero = 0) {c : K} (hc : ∀ t ∈ m.triangles, f (m.faceVector t) = c)
    (hk : k < m.vertexCount) : (m.faceSums[k]?).map f = some (m.valence k * c) := by
  have hsum : m.triangles.map (fun t => (t.indices.count k : K) * f (m.faceVector t)) =
      m.triangles.map fun t => (t.indices.count k : K) * c :=
    List.map_congr_left fun t ht => by rw [hc t ht]
  rw [map_faceSums m f hf hz hk, hsum, List.sum_map_mul_right, valence, Nat.cast_list_sum,
    List.map_map]
  rfl

/-- Every vertex is a corner of some triangle. -/
theorem valence_pos {m : Mesh α} (hr : 1 ≤ m.resolution) (hk : k < (m.resolution + 1) ^ 2) :
    0 < m.valence k := by
  obtain ⟨t, ht, hkt⟩ := Grid.exists_mem_indices hr hk
  rw [valence, List.sum_pos_iff_exists_pos_nat]
  exact ⟨_, List.mem_map_of_mem ht, List.count_pos_iff.2 hkt⟩

end Sums

section Sampled

variable {K : Type} [ExactNumber K]
variable {d : Domain K} {heights : Array (Option K)} {k : Nat}

/-- The sum at a vertex points up once for each corner that is there. -/
theorem exists_faceSum (hk : k < (ofHeights d heights).vertexCount) :
    ∃ s, (ofHeights d heights).faceSums[k]? = some s ∧
      s.z = (ofHeights d heights).valence k * (d.xStep * d.yStep) ∧ d.xStep * d.yStep ≤ s.z := by
  have hz := map_faceSums_of_const (ofHeights d heights) Vec3.z (fun _ _ => rfl) Scalar.zero_eq
    (fun t ht => faceVector_z ht) hk
  obtain ⟨s, hs, hsz⟩ := Option.map_eq_some_iff.1 hz
  rw [vertexCount_ofHeights] at hk
  have hv : (1 : K) ≤ (ofHeights d heights).valence k :=
    Nat.one_le_cast.2 (valence_pos (m := ofHeights d heights) d.resolution_pos hk)
  refine ⟨s, hs, hsz, ?_⟩
  rw [hsz]
  exact le_mul_of_one_le_left d.xStep_mul_yStep_pos.le hv

end Sampled

/-! ### All of a surface -/

section Surfaces

theorem facetNormal_of_z_pos {u v w : Vec3 ℝ} (h : 0 < ((v - u).cross (w - u)).z) :
    facetNormal u v w = ((v - u).cross (w - u)).divide ((v - u).cross (w - u)).norm := by
  have hn : (Scalar.zero : ℝ) < ((v - u).cross (w - u)).norm := by
    rw [Scalar.zero_eq]
    exact h.trans_le (Vec3.z_le_norm _)
  rw [facetNormal, Vec3.cross_turned]
  exact if_pos hn

/-- In exact numbers every triangle of a surface faces up, whatever the heights are: its vector is the same
from the second corner, by which facets are drawn, as from the first, by which areas and the directions at
vertices are found, and goes up by the product of the steps of the grid, which is positive. So the sum of the
vectors around a vertex goes up by a multiple of that product. -/
theorem triangles_face_up (d : Domain ℝ) (heights : Array (Option ℝ)) :
    let m := ofHeights d heights
    (∀ k, d.xAt (k + 1) - d.xAt k = d.xStep ∧ d.yAt (k + 1) - d.yAt k = d.yStep) ∧
    0 < d.xStep * d.yStep ∧
    (∀ t ∈ m.triangles,
      (m.vertex t.c - m.vertex t.b).cross (m.vertex t.a - m.vertex t.b) = m.faceVector t ∧
      (m.faceVector t).z = d.xStep * d.yStep ∧
      facetNormal (m.vertex t.a) (m.vertex t.b) (m.vertex t.c) =
        (m.faceVector t).divide (m.faceVector t).norm) ∧
    m.surfaceArea = pairwiseSum (m.triangles.map fun t =>
      ((m.vertex t.c - m.vertex t.b).cross (m.vertex t.a - m.vertex t.b)).norm) / Scalar.ofNat 2 ∧
    ∀ k < m.vertexCount, ∃ s, m.faceSums[k]? = some s ∧ 0 < m.valence k ∧
      s.z = m.valence k * (d.xStep * d.yStep) ∧ 0 < s.z := by
  intro m
  have hpos := d.xStep_mul_yStep_pos
  refine ⟨fun k => ⟨d.xAt_succ_sub k, d.yAt_succ_sub k⟩, hpos, fun t ht => ?_, ?_, fun k hk => ?_⟩
  · have hz := faceVector_z ht
    exact ⟨Vec3.cross_turned _ _ _, hz, facetNormal_of_z_pos (hz.symm ▸ hpos)⟩
  · simp only [Vec3.cross_turned]
    rfl
  · obtain ⟨s, hs, hz, hle⟩ := exists_faceSum hk
    rw [vertexCount_ofHeights] at hk
    exact ⟨s, hs, valence_pos (m := m) d.resolution_pos hk, hz, hpos.trans_le hle⟩

/-- Over a cell with sides of length two, two triangles meet at the missing corner, and their vectors go up by
eight together. -/
theorem triangles_face_up_cell :
    let m := ofHeights (Domain.cell 2 two_pos) #[some 5, none, some (-3), some 0]
    (⟨0, 2, 1⟩ ∈ m.triangles ∧ 1 < m.vertexCount) ∧ (m.faceVector ⟨0, 2, 1⟩).z = 4 ∧
      ∃ s, m.faceSums[1]? = some s ∧ s.z = 8 := by
  intro m
  obtain ⟨-, -, hfaces, -, hsums⟩ :=
    triangles_face_up (Domain.cell 2 two_pos) #[some 5, none, some (-3), some 0]
  have ht : (⟨0, 2, 1⟩ : Triangle) ∈ m.triangles := by decide
  have hk : 1 < m.vertexCount := by
    rw [vertexCount_ofHeights]
    decide
  obtain ⟨-, hz, -⟩ := hfaces _ ht
  obtain ⟨s, hs, -, hsz, -⟩ := hsums 1 hk
  have hv : m.valence 1 = 2 := rfl
  refine ⟨⟨ht, hk⟩, ?_, s, hs, ?_⟩
  · rw [hz, Domain.xStep_cell, Domain.yStep_cell]
    norm_num
  · rw [hsz, Domain.xStep_cell, Domain.yStep_cell, hv]
    norm_num

end Surfaces

end Mesh

end Relief
