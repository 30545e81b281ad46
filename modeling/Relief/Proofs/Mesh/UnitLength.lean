import Mathlib
import Relief.Proofs.Mesh.Arrows
import Relief.Proofs.Mesh.Facing

/-!
How long the directions at the vertices of a surface are. In exact numbers none is zero. Those whose sum is
longer than a fixed least length have length one, and on a grid of very small cells the others stay as short
as they are.
-/
namespace Relief.Mesh

/-! ### One direction -/

section Direction

variable {v : Vec3 ℝ}

theorem leastLength_lt_one : (leastLength : ℝ) < 1 := by
  change (1e-30 : ℝ) < 1
  norm_num

theorem norm_normalize (h : leastLength < v.norm) : (normalize v).norm = 1 := by
  have hpos : 0 < v.norm := by
    refine lt_trans ?_ h
    change (0 : ℝ) < 1e-30
    norm_num
  rw [normalize, if_pos h]
  exact Vec3.norm_divide_norm hpos

theorem normalize_eq_self (h : v.norm ≤ leastLength) : normalize v = v := if_neg (not_lt.2 h)

theorem norm_normalize_eq_one_iff : (normalize v).norm = 1 ↔ leastLength < v.norm := by
  refine ⟨fun h => ?_, norm_normalize⟩
  by_contra hle
  rw [normalize_eq_self (not_lt.1 hle)] at h
  exact hle (h.symm ▸ leastLength_lt_one)

theorem norm_normalize_pos (h : 0 < v.norm) : 0 < (normalize v).norm := by
  by_cases hl : leastLength < v.norm
  · rw [norm_normalize hl]
    exact one_pos
  · rwa [normalize_eq_self (not_lt.1 hl)]

end Direction

/-! ### The directions of a surface -/

section Surface

variable {K : Type} [ExactNumber K]
variable {m : Mesh K} {target : Int}

theorem isZero_iff {v : Vec3 K} : v.isZero = true ↔ v = Vec3.zero := by
  obtain ⟨x, y, z⟩ := v
  simp only [Vec3.isZero, Vec3.zero, Bool.and_eq_true, Vec3.mk.injEq, and_assoc]
  exact Iff.and decide_eq_true_iff (Iff.and decide_eq_true_iff decide_eq_true_iff)

theorem of_mem_arrows {arrows : List (Arrow K)} {a : Arrow K} (h : m.arrows target = some arrows)
    (ha : a ∈ arrows) :
    m.isFinite a.index = true ∧ m.vertexNormals[a.index]? = some a.direction := by
  obtain ⟨step, hstep, -⟩ := Option.map_eq_some_iff.1 h
  obtain ⟨arrows', h', -, -, hmem⟩ := arrows_of_arrowStep hstep
  rw [h] at h'
  cases h'
  obtain ⟨-, -, hf, -, -, hd⟩ := (hmem a).1 ha
  exact ⟨hf, hd⟩

theorem getElem?_vertexNormals (m : Mesh K) (k : Nat) :
    m.vertexNormals[k]? = (m.faceSums[k]?).map normalize := Array.getElem?_map

/-- A triangle without slope points straight up. -/
theorem faceVector_of_flat {t : Triangle}
    (h : ∀ u ∈ t.indices, ∀ v ∈ t.indices, (m.vertex u).z = (m.vertex v).z) :
    (m.faceVector t).x = 0 ∧ (m.faceVector t).y = 0 := by
  have hb : (m.vertex t.b).z = (m.vertex t.a).z :=
    h _ (by simp [Triangle.indices]) _ (by simp [Triangle.indices])
  have hc : (m.vertex t.c).z = (m.vertex t.a).z :=
    h _ (by simp [Triangle.indices]) _ (by simp [Triangle.indices])
  simp only [faceVector, Vec3.cross, Vec3.sub_x, Vec3.sub_y, Vec3.sub_z, hb, hc]
  constructor <;> ring

end Surface

/-! ### Sampled surfaces -/

section Sampled

variable {d : Domain ℝ} {heights : Array (Option ℝ)} {k : Nat}

theorem lt_of_isFinite (h : (ofHeights d heights).isFinite k = true) :
    k < (ofHeights d heights).vertexCount := by
  by_contra hk
  rw [vertexCount, ofHeights, Array.size_ofFn] at hk
  rw [isFinite, ofHeights, Array.getElem?_ofFn, dif_neg hk] at h
  cases h

theorem exists_vertexNormal (hk : k < (ofHeights d heights).vertexCount) :
    ∃ s, (ofHeights d heights).faceSums[k]? = some s ∧
      (ofHeights d heights).vertexNormals[k]? = some (normalize s) ∧
      0 < s.norm ∧ d.xStep * d.yStep ≤ s.norm := by
  obtain ⟨s, hs, -, hle⟩ := exists_faceSum hk
  have hle := hle.trans (Vec3.z_le_norm s)
  refine ⟨s, hs, ?_, d.xStep_mul_yStep_pos.trans_le hle, hle⟩
  rw [getElem?_vertexNormals, hs]
  rfl

/-- On a surface without slope the sum at a vertex is as long as it is high. -/
theorem exists_faceSum_of_flat (hk : k < (ofHeights d heights).vertexCount)
    (h : ∀ t ∈ (ofHeights d heights).triangles, ∀ u ∈ t.indices, ∀ v ∈ t.indices,
      ((ofHeights d heights).vertex u).z = ((ofHeights d heights).vertex v).z) :
    ∃ s, (ofHeights d heights).faceSums[k]? = some s ∧
      s.norm = (ofHeights d heights).valence k * (d.xStep * d.yStep) := by
  obtain ⟨s, hs, hz, hle⟩ := exists_faceSum hk
  have hx := map_faceSums_of_const (ofHeights d heights) Vec3.x (fun _ _ => rfl) Scalar.zero_eq
    (fun t ht => (faceVector_of_flat (h t ht)).1) hk
  have hy := map_faceSums_of_const (ofHeights d heights) Vec3.y (fun _ _ => rfl) Scalar.zero_eq
    (fun t ht => (faceVector_of_flat (h t ht)).2) hk
  rw [hs, mul_zero] at hx hy
  refine ⟨s, hs, ?_⟩
  rw [← hz]
  exact Vec3.norm_eq_z (Option.some.inj hx) (Option.some.inj hy) (d.xStep_mul_yStep_pos.trans_le hle).le

theorem exists_arrow_sum {target : Int} {arrows : List (Arrow ℝ)} {a : Arrow ℝ}
    (h : (ofHeights d heights).arrows target = some arrows) (ha : a ∈ arrows) :
    ∃ s, (ofHeights d heights).faceSums[a.index]? = some s ∧ a.direction = normalize s ∧
      d.xStep * d.yStep ≤ s.norm := by
  obtain ⟨hf, hn⟩ := of_mem_arrows h ha
  obtain ⟨s, hs, hn', -, hle⟩ := exists_vertexNormal (lt_of_isFinite hf)
  rw [hn] at hn'
  exact ⟨s, hs, Option.some.inj hn', hle⟩

/-- In exact numbers no direction at a vertex of a surface is zero. It has length one exactly if the sum of the
vectors around the vertex is longer than the least length, and otherwise it is that sum. The arrows have the
same directions. All have length one on a grid whose cells are larger than the least length. -/
theorem vertexNormals_unit (d : Domain ℝ) (heights : Array (Option ℝ)) :
    let m := ofHeights d heights
    (∀ k < m.vertexCount, ∃ s n, m.faceSums[k]? = some s ∧ m.vertexNormals[k]? = some n ∧
      0 < n.norm ∧ (n.norm = 1 ↔ leastLength < s.norm) ∧ (s.norm ≤ leastLength → n = s)) ∧
    (∀ target arrows, m.arrows target = some arrows → ∀ a ∈ arrows, ∃ s,
      m.faceSums[a.index]? = some s ∧
      (a.direction.norm = 1 ↔ leastLength < s.norm) ∧ (s.norm ≤ leastLength → a.direction = s)) ∧
    (leastLength < d.xStep * d.yStep →
      (∀ k < m.vertexCount, ∃ n, m.vertexNormals[k]? = some n ∧ n.norm = 1) ∧
      ∀ target arrows, m.arrows target = some arrows → ∀ a ∈ arrows, a.direction.norm = 1) := by
  intro m
  refine ⟨fun k hk => ?_, fun target arrows h a ha => ?_, fun hcell => ⟨fun k hk => ?_,
    fun target arrows h a ha => ?_⟩⟩
  · obtain ⟨s, hs, hn, hpos, -⟩ := exists_vertexNormal hk
    exact ⟨s, normalize s, hs, hn, norm_normalize_pos hpos, norm_normalize_eq_one_iff, normalize_eq_self⟩
  · obtain ⟨s, hs, hd, -⟩ := exists_arrow_sum h ha
    rw [hd]
    exact ⟨s, hs, norm_normalize_eq_one_iff, normalize_eq_self⟩
  · obtain ⟨s, -, hn, -, hle⟩ := exists_vertexNormal hk
    exact ⟨normalize s, hn, norm_normalize (hcell.trans_le hle)⟩
  · obtain ⟨s, -, hd, hle⟩ := exists_arrow_sum h ha
    rw [hd]
    exact norm_normalize (hcell.trans_le hle)

/-- Over a cell with sides of length one, all directions have length one, and so have the arrows. -/
theorem vertexNormals_unit_cell :
    let m := ofHeights (Domain.cell 1 one_pos) #[some 5, none, some (-3), some 0]
    (leastLength < (Domain.cell 1 one_pos).xStep * (Domain.cell 1 one_pos).yStep ∧ 1 < m.vertexCount) ∧
      (∃ n, m.vertexNormals[1]? = some n ∧ n.norm = 1) ∧
      ∃ arrows, m.arrows 3 = some arrows ∧ ∀ a ∈ arrows, a.direction.norm = 1 := by
  intro m
  have hcell : leastLength < (Domain.cell 1 one_pos).xStep * (Domain.cell 1 one_pos).yStep := by
    rw [Domain.xStep_cell, Domain.yStep_cell, mul_one]
    exact leastLength_lt_one
  have hk : 1 < m.vertexCount := by
    rw [vertexCount_ofHeights]
    decide
  obtain ⟨-, -, hlong⟩ := vertexNormals_unit (Domain.cell 1 one_pos) #[some 5, none, some (-3), some 0]
  obtain ⟨hnormals, harrows⟩ := hlong hcell
  have hstep : arrowStep m.vertexCount 3 = some 2 := rfl
  obtain ⟨arrows, h, -⟩ := arrows_of_arrowStep hstep
  exact ⟨⟨hcell, hk⟩, hnormals 1 hk, arrows, h, harrows 3 arrows h⟩

/-- Over a very small cell without slope, directions are neither zero nor of length one, and they have
arrows. -/
theorem vertexNormals_tiny :
    let m := ofHeights (Domain.cell 1e-16 (by norm_num)) #[some 0, some 0, some 0, some 0]
    ∃ n, m.vertexNormals[0]? = some n ∧ n ≠ Vec3.zero ∧ n.norm ≠ 1 ∧
      ∃ arrows, m.arrows standardTarget = some arrows ∧ ∃ a ∈ arrows, a.direction.norm ≠ 1 := by
  intro m
  have hz : ∀ u < (1 + 1) ^ 2, (m.vertex u).z = 0 := by
    intro u hu
    interval_cases u <;> rfl
  have hk : 0 < m.vertexCount := by
    rw [vertexCount_ofHeights]
    decide
  obtain ⟨s, hs, hnorm⟩ := exists_faceSum_of_flat hk fun t ht u hu v hv =>
    (hz u (Grid.indices_lt ht u hu)).trans (hz v (Grid.indices_lt ht v hv)).symm
  have hv : m.valence 0 = 1 := rfl
  have hshort : s.norm = 1e-32 := by
    rw [hnorm, Domain.xStep_cell, Domain.yStep_cell, hv]
    norm_num
  have hle : s.norm ≤ leastLength := by
    rw [hshort]
    change (1e-32 : ℝ) ≤ 1e-30
    norm_num
  have hone : s.norm ≠ 1 := by
    rw [hshort]
    norm_num
  have hne : s ≠ Vec3.zero := by
    rintro rfl
    rw [Vec3.norm_zero] at hshort
    norm_num at hshort
  have hn : m.vertexNormals[0]? = some s := by
    rw [getElem?_vertexNormals, hs, Option.map_some, normalize_eq_self hle]
  have hstep : arrowStep m.vertexCount standardTarget = some 1 := rfl
  have hz' : s.isZero = false := Bool.eq_false_iff.2 fun h => hne (isZero_iff.1 h)
  obtain ⟨arrows, h, -, -, hmem⟩ := arrows_of_arrowStep hstep
  exact ⟨s, hn, hne, hone, arrows, h, ⟨0, m.vertex 0, s⟩,
    (hmem _).2 ⟨hk, Nat.dvd_zero _, rfl, hz', rfl, hn⟩, hone⟩

end Sampled

end Relief.Mesh
