import Mathlib
import Relief.Mesh.Measure
import Relief.Proofs.Mesh.Level

/-!
The lowest and the highest point of a sampled surface: the first vertex with a height at that end of the
range, and no highest point where the range is a single height.
-/
namespace Relief

theorem Number.beq_iff_rank {v w : Float} (hv : v.isFinite = true) (hw : w.isFinite = true) :
    (v == w) = true ↔ rank (fields v) = rank (fields w) := by
  rw [← compare_eq_eq_iff (fields_ne_notANumber hv) (fields_ne_notANumber hw)]
  change (Float.Model.UnpackedFloat.compare (fields v) (fields w) == some .eq) = true ↔ _
  rw [beq_iff_eq]

namespace Mesh

/-! ### The first of the best -/

section First

variable {β : Type} [LinearOrder β] {key : Nat → β} {k b : Nat} {ks : List Nat}

/-- The first of some numbers with the least key. -/
structure IsFirst (key : Nat → β) (ks : List Nat) (b : Nat) : Prop where
  mem : b ∈ ks
  le : ∀ j ∈ ks, key b ≤ key j
  lt : ∀ j ∈ ks, j < b → key b < key j

theorem IsFirst.cons_of_lt (h : IsFirst key ks b) (hk : key b < key k) : IsFirst key (k :: ks) b where
  mem := List.mem_cons_of_mem k h.mem
  le := List.forall_mem_cons.2 ⟨hk.le, h.le⟩
  lt := List.forall_mem_cons.2 ⟨fun _ => hk, h.lt⟩

/-- A number that is put after the first of those behind it is not better than it. -/
theorem IsFirst.cons_cons_of_le {j : Nat} (h : IsFirst key (k :: ks) b) (hj : key k ≤ key j)
    (hkj : k < j) : IsFirst key (k :: j :: ks) b := by
  have hbk : key b ≤ key k := h.le k List.mem_cons_self
  refine ⟨?_, ?_, ?_⟩
  · obtain rfl | hb := List.mem_cons.1 h.mem
    · exact List.mem_cons_self
    · exact List.mem_cons_of_mem _ (List.mem_cons_of_mem _ hb)
  · intro i hi
    obtain rfl | rfl | hi : i = k ∨ i = j ∨ i ∈ ks := by simpa using hi
    · exact hbk
    · exact hbk.trans hj
    · exact h.le i (List.mem_cons_of_mem k hi)
  · intro i hi hib
    obtain rfl | rfl | hi : i = k ∨ i = j ∨ i ∈ ks := by simpa using hi
    · exact h.lt i List.mem_cons_self hib
    · exact (h.lt k List.mem_cons_self (hkj.trans hib)).trans_le hj
    · exact h.lt i (List.mem_cons_of_mem k hi) hib

/-- Going through numbers in order, and changing over to a better one only, ends at the first of the best. -/
theorem isFirst_foldl (better : Nat → Nat → Bool) (hs : (k :: ks).Pairwise (· < ·))
    (hb : ∀ i ∈ k :: ks, ∀ j ∈ k :: ks, (better i j = true ↔ key i < key j)) :
    IsFirst key (k :: ks) (ks.foldl (fun best j => if better j best then j else best) k) := by
  induction ks generalizing k with
  | nil =>
    refine ⟨List.mem_cons_self, fun j hj => ?_, fun j hj hjk => ?_⟩
    · rw [List.mem_singleton.1 hj]
      exact le_rfl
    · exact absurd (List.mem_singleton.1 hj) hjk.ne
  | cons j ks ih =>
    obtain ⟨hk, hj⟩ := List.pairwise_cons.1 hs
    obtain ⟨hj, hks⟩ := List.pairwise_cons.1 hj
    rw [List.foldl_cons]
    split
    · next hlt =>
      have hlt : key j < key k :=
        (hb j (List.mem_cons_of_mem k List.mem_cons_self) k List.mem_cons_self).1 hlt
      have hfirst := ih (List.pairwise_cons.2 ⟨hj, hks⟩) fun i hi l hl =>
        hb i (List.mem_cons_of_mem k hi) l (List.mem_cons_of_mem k hl)
      exact hfirst.cons_of_lt ((hfirst.le j List.mem_cons_self).trans_lt hlt)
    · next hle =>
      have hle : key k ≤ key j := not_lt.1 fun hlt =>
        hle ((hb j (List.mem_cons_of_mem k List.mem_cons_self) k List.mem_cons_self).2 hlt)
      have hsub : ∀ i ∈ k :: ks, i ∈ k :: j :: ks := fun i hi => by
        obtain rfl | hi := List.mem_cons.1 hi
        · exact List.mem_cons_self
        · exact List.mem_cons_of_mem _ (List.mem_cons_of_mem _ hi)
      have hfirst := ih (List.pairwise_cons.2 ⟨fun i hi => hk i (List.mem_cons_of_mem j hi), hks⟩)
        fun i hi l hl => hb i (hsub i hi) l (hsub l hl)
      exact hfirst.cons_cons_of_le hle (hk j List.mem_cons_self)

end First

/-! ### Sampled surfaces -/

variable {m : Mesh Float} {d : Domain Float} {value : Nat → Nat → Option Float} {z : Float} {k : Nat}

open Number (rank fields beq_iff_rank)

/-- The first vertex with a finite value whose height is `z`. -/
structure FirstAt (m : Mesh Float) (z : Float) (k : Nat) : Prop where
  lt : k < m.vertexCount
  finite : m.isFinite k = true
  height : ((m.vertex k).z == z) = true
  first : ∀ j < k, m.isFinite j = true → ((m.vertex j).z == z) = false

/-- The place of a vertex in the order of heights. -/
def heightRank (m : Mesh Float) (k : Nat) : ℤ ×ₗ ℤ ×ₗ ℤ := rank (fields (m.vertex k).z)

theorem mem_finiteVertices : k ∈ m.finiteVertices ↔ k < m.vertexCount ∧ m.isFinite k = true := by
  rw [finiteVertices, List.mem_filter, List.mem_range]

theorem pairwise_finiteVertices (m : Mesh Float) : m.finiteVertices.Pairwise (· < ·) :=
  List.pairwise_lt_range.filter _

theorem Samples.isHeight_of_mem (h : Samples m d value) (hk : k ∈ m.finiteVertices) :
    IsHeight d value (m.vertex k).z := by
  obtain ⟨hk, hf⟩ := mem_finiteVertices.1 hk
  rw [vertexCount, h.size_vertices, ← h.resolution] at hk
  exact h.isHeight_vertex hk hf

theorem Samples.exists_mem (h : Samples m d value) (hz : IsHeight d value z) :
    ∃ k ∈ m.finiteVertices, (m.vertex k).z = z := by
  obtain ⟨k, hk, hf, hz⟩ := h.exists_vertex hz
  refine ⟨k, mem_finiteVertices.2 ⟨?_, hf⟩, hz⟩
  rwa [vertexCount, h.size_vertices, ← h.resolution]

theorem getElem?_vertices_of_mem (hk : k ∈ m.finiteVertices) :
    m.vertices[k]? = some (m.vertex k) := by
  obtain ⟨hk, -⟩ := mem_finiteVertices.1 hk
  rw [vertex, Array.getElem?_eq_getElem hk]
  rfl

theorem Samples.isFinite_of_mem (h : Samples m d value) (hk : k ∈ m.finiteVertices) :
    (m.vertex k).z.isFinite = true :=
  isFinite_of_isHeight (h.isHeight_of_mem hk)

/-- Looking for the best height finds the first vertex with it. -/
theorem Samples.exists_best (h : Samples m d value) (hne : m.finiteVertices ≠ []) {β : Type}
    [LinearOrder β] (key : Nat → β) (beats : Float → Float → Bool)
    (hkey : ∀ i j, key i = key j ↔ m.heightRank i = m.heightRank j)
    (hb : ∀ i ∈ m.finiteVertices, ∀ j ∈ m.finiteVertices,
      (beats (m.vertex i).z (m.vertex j).z = true ↔ key i < key j))
    {b : Nat} (hbm : b ∈ m.finiteVertices) (hbest : ∀ j ∈ m.finiteVertices, key b ≤ key j) :
    ∃ u, m.firstBest beats m.finiteVertices = some u ∧ IsFirst key m.finiteVertices u ∧
      m.FirstAt (m.vertex b).z u := by
  obtain ⟨u, hfound, hu⟩ : ∃ u, m.firstBest beats m.finiteVertices = some u ∧
      IsFirst key m.finiteVertices u := by
    obtain ⟨k, ks, hks⟩ := List.exists_cons_of_ne_nil hne
    have hs := pairwise_finiteVertices m
    rw [hks] at hb hs ⊢
    exact ⟨_, rfl, isFirst_foldl (fun i j => beats (m.vertex i).z (m.vertex j).z) hs hb⟩
  have heq : key u = key b := le_antisymm (hu.le b hbm) (hbest u hu.mem)
  obtain ⟨hlt, hf⟩ := mem_finiteVertices.1 hu.mem
  refine ⟨u, hfound, hu, hlt, hf, ?_, fun j hju hjf => ?_⟩
  · exact (beq_iff_rank (h.isFinite_of_mem hu.mem) (h.isFinite_of_mem hbm)).2 ((hkey u b).1 heq)
  · have hj := mem_finiteVertices.2 ⟨hju.trans hlt, hjf⟩
    rw [← Bool.not_eq_true, beq_iff_rank (h.isFinite_of_mem hj) (h.isFinite_of_mem hbm)]
    exact fun hr => (hu.lt j hj hju).ne (heq.trans ((hkey j b).2 hr).symm)

theorem Samples.exists_lowest (h : Samples m d value) (hne : m.finiteVertices ≠ []) :
    ∃ low, m.firstBest (fun v w => v < w) m.finiteVertices = some low ∧
      IsFirst m.heightRank m.finiteVertices low ∧ m.FirstAt m.zMin low := by
  have hr := Scalar.ranked_isFinite
  obtain ⟨k, hk⟩ := List.exists_mem_of_ne_nil _ hne
  obtain ⟨hmin, -, -, -⟩ := h.range _ (h.isHeight_of_mem hk)
  obtain ⟨b, hb, hz⟩ := h.exists_mem hmin
  rw [← hz]
  refine h.exists_best hne m.heightRank (fun v w => decide (v < w)) (fun _ _ => Iff.rfl)
    (fun i hi j hj =>
      decide_eq_true_iff.trans (hr.lt_iff (h.isFinite_of_mem hi) (h.isFinite_of_mem hj)))
    hb fun j hj => ?_
  obtain ⟨-, -, hle, -⟩ := h.range _ (h.isHeight_of_mem hj)
  rw [← hz] at hle
  exact (hr.le_iff (h.isFinite_of_mem hb) (h.isFinite_of_mem hj)).1 hle

/-- The highest vertex is the lowest in the reverse order. -/
theorem Samples.exists_highest (h : Samples m d value) (hne : m.finiteVertices ≠ []) :
    ∃ high, m.firstBest (fun v w => w < v) m.finiteVertices = some high ∧
      IsFirst (fun k => OrderDual.toDual (m.heightRank k)) m.finiteVertices high ∧
      m.FirstAt m.zMax high := by
  have hr := Scalar.ranked_isFinite
  obtain ⟨k, hk⟩ := List.exists_mem_of_ne_nil _ hne
  obtain ⟨-, hmax, -, -⟩ := h.range _ (h.isHeight_of_mem hk)
  obtain ⟨b, hb, hz⟩ := h.exists_mem hmax
  rw [← hz]
  refine h.exists_best hne (fun k => OrderDual.toDual (m.heightRank k)) (fun v w => decide (w < v))
    (fun _ _ => Iff.rfl)
    (fun i hi j hj =>
      decide_eq_true_iff.trans (hr.lt_iff (h.isFinite_of_mem hj) (h.isFinite_of_mem hi)))
    hb fun j hj => ?_
  obtain ⟨-, -, -, hge⟩ := h.range _ (h.isHeight_of_mem hj)
  rw [← hz] at hge
  exact (hr.le_iff (h.isFinite_of_mem hj) (h.isFinite_of_mem hb)).1 hge

/-- The lowest vertex is also the highest exactly if all heights are the same. -/
theorem Samples.highest_eq_lowest_iff (h : Samples m d value) {low high : Nat}
    (hlow : IsFirst m.heightRank m.finiteVertices low) (hmin : m.FirstAt m.zMin low)
    (hhigh : IsFirst (fun k => OrderDual.toDual (m.heightRank k)) m.finiteVertices high)
    (hmax : m.FirstAt m.zMax high) : high = low ↔ (m.zMin == m.zMax) = true := by
  have hl := h.isFinite_of_mem hlow.mem
  have hh := h.isFinite_of_mem hhigh.mem
  obtain ⟨hzmin, hzmax, -, -⟩ := h.range _ (h.isHeight_of_mem hlow.mem)
  have hzmin := isFinite_of_isHeight hzmin
  have hzmax := isFinite_of_isHeight hzmax
  have hlr : m.heightRank low = rank (fields m.zMin) := (beq_iff_rank hl hzmin).1 hmin.height
  have hhr : m.heightRank high = rank (fields m.zMax) := (beq_iff_rank hh hzmax).1 hmax.height
  rw [beq_iff_rank hzmin hzmax, ← hlr, ← hhr]
  constructor
  · rintro rfl
    rfl
  · intro heq
    by_contra hne
    -- the one of the two that comes first is strictly better by the order of the other
    obtain hlt | hgt := Nat.lt_or_gt_of_ne hne
    · exact (hlow.lt high hhigh.mem hlt).ne heq
    · exact (hhigh.lt low hlow.mem hgt).ne (congrArg OrderDual.toDual heq.symm)

/-- The lowest point of a sampled surface is the first vertex with the least height, and the highest the first
with the greatest. There is no highest point exactly where these heights are the same number, and neither
without any height. -/
theorem extrema_firstAt (h : Sampled m) :
    ((∃ k < m.vertexCount, m.isFinite k = true) →
      ∃ low v high w, m.FirstAt m.zMin low ∧ m.vertices[low]? = some v ∧
        m.FirstAt m.zMax high ∧ m.vertices[high]? = some w ∧
        m.extrema.lowest = some (low, v) ∧
        m.extrema.highest = if m.zMin == m.zMax then none else some (high, w)) ∧
    ((∀ k < m.vertexCount, m.isFinite k = false) →
      m.extrema.lowest = none ∧ m.extrema.highest = none) := by
  obtain ⟨d, value, hs⟩ := h.exists_samples
  constructor
  · rintro ⟨k, hk⟩
    have hne : m.finiteVertices ≠ [] := List.ne_nil_of_mem (mem_finiteVertices.2 hk)
    obtain ⟨low, hlow, hlowFirst, hmin⟩ := hs.exists_lowest hne
    obtain ⟨high, hhigh, hhighFirst, hmax⟩ := hs.exists_highest hne
    refine ⟨low, m.vertex low, high, m.vertex high, hmin, getElem?_vertices_of_mem hlowFirst.mem, hmax,
      getElem?_vertices_of_mem hhighFirst.mem, ?_, ?_⟩
    · rw [extrema, hlow]
      rfl
    · rw [extrema, hlow, hhigh]
      simp only [Option.some.injEq, Option.map_some]
      exact if_congr (hs.highest_eq_lowest_iff hlowFirst hmin hhighFirst hmax) rfl rfl
  · intro hnone
    have hnil : m.finiteVertices = [] := by
      refine List.eq_nil_iff_forall_not_mem.2 fun k hk => ?_
      obtain ⟨hk, hf⟩ := mem_finiteVertices.1 hk
      rw [hnone k hk] at hf
      cases hf
    rw [extrema, hnil]
    exact ⟨rfl, rfl⟩

/-- Over one cell with a missing corner, which is at height zero, the lowest of the other corners is the third
and the first of two equally high ones the second. Without any height there is neither. -/
theorem extrema_firstAt_tie :
    (∃ d m, ofOutcomes [.ok .null, .ok (.float 3), .ok (.int 2), .ok (.float 3)] d = .ok m ∧
      (∃ k < m.vertexCount, m.isFinite k = true) ∧
      (∃ v, m.FirstAt m.zMin 2 ∧ m.extrema.lowest = some (2, v)) ∧
      ∃ w, m.FirstAt m.zMax 1 ∧ m.extrema.highest = some (1, w)) ∧
    ∃ d m, ofOutcomes [] d = .ok m ∧ (∀ k < m.vertexCount, m.isFinite k = false) ∧
      m.extrema.lowest = none ∧ m.extrema.highest = none := by
  let d : Domain Float := { Domain.standard with resolution := 1, resolution_pos := Nat.one_pos }
  constructor
  · let m := ofHeights d #[none, some 3, some 2, some 3]
    have hm : ofOutcomes [.ok .null, .ok (.float 3), .ok (.int 2), .ok (.float 3)] d = .ok m := by
      rfl
    have hf : ∃ k < m.vertexCount, m.isFinite k = true := ⟨1, by decide⟩
    obtain ⟨low, v, high, w, hmin, -, hmax, -, hlow, hhigh⟩ :=
      (extrema_firstAt (.outcomes hm)).1 hf
    rw [if_neg (by decide)] at hhigh
    have hl : m.extrema.lowest.map Prod.fst = some 2 := by decide
    have hh : m.extrema.highest.map Prod.fst = some 1 := by decide
    rw [hlow] at hl
    rw [hhigh] at hh
    cases hl
    cases hh
    exact ⟨d, m, hm, hf, ⟨v, hmin, hlow⟩, w, hmax, hhigh⟩
  · let m := ofHeights d #[]
    have hm : ofOutcomes [] d = .ok m := rfl
    have hf : ∀ k < m.vertexCount, m.isFinite k = false := by decide
    exact ⟨d, m, hm, hf, (extrema_firstAt (.outcomes hm)).2 hf⟩

end Mesh

end Relief
