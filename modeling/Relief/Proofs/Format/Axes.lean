import Mathlib
import Relief.Format.Glb
import Relief.Proofs.Format.Drawn
import Relief.Proofs.Number.Binary32
import Relief.Proofs.Number.Product

/-!
Points in the axes of a scene: turned upright they are the same numbers in another order, and where the
bounds of their words are finite, so are all coordinates.
-/
namespace Relief

/-! ### Bounds that are finite -/

namespace Scalar

open Number

theorem not_lt_of_notANumber {v w : Float} (h : fields v = .notANumber ∨ fields w = .notANumber) :
    ¬ v < w := by
  rw [lt_iff_compare]
  obtain h | h := h
  · rw [h]
    rintro ⟨⟩
  · rw [h]
    cases fields v <;> rintro ⟨⟩

theorem same_self_iff {v : Float} : same v v = true ↔ fields v ≠ .notANumber := by
  have hn : fields Float.nan = .notANumber := rfl
  have h : v = Float.nan ↔ fields v = .notANumber :=
    ⟨fun h => h ▸ hn, fun h => fields_inj (h.trans hn.symm)⟩
  rw [ne_eq, ← h]
  exact Float.beq_self_iff

theorem greater_ne_notANumber {v w : Float} (h : fields (greater v w) ≠ .notANumber) :
    fields v ≠ .notANumber ∧ fields w ≠ .notANumber := by
  have hw : fields w ≠ .notANumber := by
    intro hw
    rw [greater, if_neg (not_lt_of_notANumber (.inr hw)), if_neg (mt same_self_iff.1 (not_not.2 hw))]
      at h
    exact h hw
  refine ⟨fun hv => ?_, hw⟩
  rw [greater, if_neg (not_lt_of_notANumber (.inl hv)), if_pos (same_self_iff.2 hw)] at h
  exact h hv

/-- The greatest of some numbers is a number only if they all are. -/
theorem foldl_greater_ne_notANumber {v : Float} {vs : List Float}
    (h : fields (vs.foldl greater v) ≠ .notANumber) :
    ∀ w ∈ v :: vs, fields w ≠ .notANumber := by
  induction vs generalizing v with
  | nil => exact List.forall_mem_singleton.2 h
  | cons w vs ih =>
    obtain ⟨hg, hvs⟩ := List.forall_mem_cons.1 (ih h)
    obtain ⟨hv, hw⟩ := greater_ne_notANumber hg
    exact List.forall_mem_cons.2 ⟨hv, List.forall_mem_cons.2 ⟨hw, hvs⟩⟩

theorem ranked_number :
    Ranked (fun v : Float => fields v ≠ .notANumber) (fun v => rank (fields v)) where
  lt_iff hv hw := lt_iff_compare.trans (compare_eq_lt_iff hv hw)
  le_iff hv hw := le_iff_compare.trans (compare_isLE_iff hv hw)
  same_self hv := same_self_iff.2 hv

theorem isFinite_iff_rank {v : Float} (h : fields v ≠ .notANumber) :
    v.isFinite = true ↔
      rank (.infinity .negative) < rank (fields v) ∧ rank (fields v) < rank (.infinity .positive) := by
  rw [isFinite_iff_fields]
  rcases hv : fields v with (_ | _) | _ | _ | ⟨_ | _, m, e, hm⟩ <;>
    simp [rank, Float.Model.UnpackedFloat.isFinite, Prod.Lex.toLex_lt_toLex, hv] at h ⊢

/-- All numbers between two finite ones are finite. -/
theorem isFinite_of_extremes {vs : List Float} {low high : Float} (hl : least? vs = some low)
    (hh : greatest? vs = some high) (hlow : low.isFinite = true) (hhigh : high.isFinite = true) :
    ∀ v ∈ vs, v.isFinite = true := by
  have hne : vs ≠ [] := by
    rintro rfl
    cases hl
  have hn : ∀ v ∈ vs, fields v ≠ .notANumber := by
    obtain ⟨v, vs, rfl⟩ := List.exists_cons_of_ne_nil hne
    apply foldl_greater_ne_notANumber
    rw [Option.some.inj hh]
    exact fields_ne_notANumber hhigh
  obtain ⟨l, hlm, hl', hle⟩ := ranked_number.least? hn hne
  obtain ⟨g, hgm, hg', hge⟩ := ranked_number.greatest? hn hne
  obtain rfl : low = l := Option.some.inj (hl.symm.trans hl')
  obtain rfl : high = g := Option.some.inj (hh.symm.trans hg')
  intro v hv
  rw [isFinite_iff_rank (hn v hv)]
  have h1 := (isFinite_iff_rank (hn low hlm)).1 hlow
  have h2 := (isFinite_iff_rank (hn high hgm)).1 hhigh
  exact ⟨h1.1.trans_le ((ranked_number.le_iff (hn low hlm) (hn v hv)).1 (hle v hv)),
    ((ranked_number.le_iff (hn v hv) (hn high hgm)).1 (hge v hv)).trans_lt h2.2⟩

end Scalar

/-! ### Turning -/

namespace Format.Glb

open Number

variable {u v : Vec3 Float} {c c' : Float}

theorem ofFloat_of_isZero (h : IsZero c) : ∃ s e, Binary64.ofFloat c = .finite s 0 e := by
  obtain ⟨t, ht⟩ := h
  rw [fields_eq_unpacked] at ht
  cases hc : Binary64.ofFloat c with
  | nan | infinite =>
    rw [hc] at ht
    cases ht
  | finite s m e =>
    rw [hc, Binary64.unpacked] at ht
    split at ht
    · cases ht
    · next hm => exact ⟨s, e, by rw [Nat.eq_zero_of_not_pos hm]⟩

theorem single_of_isZero (h : IsZero c) : single c = 0 := by
  obtain ⟨s, e, hc⟩ := ofFloat_of_isZero h
  have hn : (Binary64.ratio 0 e).num = 0 := by
    rw [Binary64.ratio]
    cases e <;> simp [Ratio.ofNat, Ratio.scale]
  have hw : Binary32.ofFloat c = Binary32.withSign s 0 := by
    rw [Binary32.ofFloat, hc]
    dsimp only
    rw [Binary32.nearest, if_pos hn]
  rw [single, hw]
  cases s <;> rfl

/-- The word of a number does not tell the sign of a zero. -/
theorem single_eq_of_same (h : Same c c') : single c = single c' := by
  obtain rfl | ⟨hc, hc'⟩ := h
  · rfl
  · rw [single_of_isZero hc, single_of_isZero hc']

theorem isZero_zero_mul (h : c.isFinite = true) : IsZero (0.0 * c) :=
  isZero_mul ⟨.positive, rfl⟩ h

/-- A finite point upright: its height is the second coordinate. -/
theorem same_upright (h : FiniteVec v) :
    Same (upright v).x v.x ∧ Same (upright v).y v.z ∧ Same (upright v).z (-v.y) := by
  have hx := isZero_zero_mul h.x
  have hy := isZero_zero_mul h.y
  have hz := isZero_zero_mul h.z
  refine ⟨?_, ?_, ?_⟩
  · change Same (1.0 * v.x + 0.0 * v.y + 0.0 * v.z) v.x
    rw [float_one_mul h.x]
    have hs := same_add_zero h.x hy
    exact (same_add_zero (hs.isFinite h.x) hz).trans hs
  · change Same (0.0 * v.x + 0.0 * v.y + 1.0 * v.z) v.z
    rw [float_one_mul h.z]
    exact same_zero_add h.z (isZero_add hx hy)
  · change Same (0.0 * v.x + -1.0 * v.y + 0.0 * v.z) (-v.y)
    rw [float_neg_one_mul h.y]
    have hs := same_zero_add (isFinite_neg h.y) hx
    exact (same_add_zero (hs.isFinite (isFinite_neg h.y)) hz).trans hs

theorem finiteVec_of_dot (h : (dot u v).isFinite = true) : FiniteVec v := by
  obtain ⟨hxy, hz⟩ := isFinite_of_add h
  obtain ⟨hx, hy⟩ := isFinite_of_add hxy
  exact ⟨(isFinite_of_mul hx).2, (isFinite_of_mul hy).2, (isFinite_of_mul hz).2⟩

/-- Which numbers are finite in words of 32 bits. -/
theorem isFinite_single_iff :
    (Binary32.toFloat (single c)).isFinite = true ↔ c.abs < Binary32.overflowBound := by
  rw [← Binary32.isFinite_ofFloat_iff, single]
  split
  · next h =>
    rw [h]
    exact iff_of_true (by decide) (by decide +kernel)
  · exact Iff.rfl

theorem isFinite_of_single (h : (Binary32.toFloat (single c)).isFinite = true) :
    c.isFinite = true :=
  Binary32.isFinite_of_abs_lt (isFinite_single_iff.1 h)

/-! ### Bounds of words -/

/-- The least and the greatest of some numbers. -/
structure Bounds (low high : Float) (cs : List Float) : Prop where
  within : ∀ c ∈ cs, low ≤ c ∧ c ≤ high
  attained : cs ≠ [] → low ∈ cs ∧ high ∈ cs

theorem bounds_of_isFinite {cs : List Float}
    (hl : ((Scalar.least? cs).getD 0.0).isFinite = true)
    (hh : ((Scalar.greatest? cs).getD 0.0).isFinite = true) :
    (∀ c ∈ cs, c.isFinite = true) ∧
      Bounds ((Scalar.least? cs).getD 0.0) ((Scalar.greatest? cs).getD 0.0) cs := by
  by_cases hn : cs = []
  · subst hn
    exact ⟨List.forall_mem_nil _, List.forall_mem_nil _, fun h => absurd rfl h⟩
  · obtain ⟨c, cs, rfl⟩ := List.exists_cons_of_ne_nil hn
    have hlow : Scalar.least? (c :: cs) = some ((Scalar.least? (c :: cs)).getD 0.0) := rfl
    have hhigh : Scalar.greatest? (c :: cs) = some ((Scalar.greatest? (c :: cs)).getD 0.0) := rfl
    have hf := Scalar.isFinite_of_extremes hlow hhigh hl hh
    obtain ⟨l, hlm, hl', hle⟩ := Scalar.ranked_isFinite.least? hf hn
    obtain ⟨g, hgm, hg', hge⟩ := Scalar.ranked_isFinite.greatest? hf hn
    rw [hl', hg']
    exact ⟨hf, fun c hc => ⟨hle c hc, hge c hc⟩, fun _ => ⟨hlm, hgm⟩⟩

theorem isFinite_extremes_iff {cs : List Float} : ((Scalar.least? cs).getD 0.0).isFinite = true ∧
    ((Scalar.greatest? cs).getD 0.0).isFinite = true ↔ ∀ c ∈ cs, c.isFinite = true := by
  refine ⟨fun h => (bounds_of_isFinite h.1 h.2).1, fun hf => ?_⟩
  by_cases hn : cs = []
  · subst hn
    exact ⟨by decide, by decide +kernel⟩
  · obtain ⟨l, hl, hl', -⟩ := Scalar.ranked_isFinite.least? hf hn
    obtain ⟨g, hg, hg', -⟩ := Scalar.ranked_isFinite.greatest? hf hn
    rw [hl', hg']
    exact ⟨hf l hl, hf g hg⟩

/-- The number of a word of a point upright, as it is read back. -/
def storedNumber (c : Float) : Float := Binary32.toFloat (single c)

/-- What holds of a block of positions that can be exported. -/
structure Positioned (m : Mesh Float) (low high : Vec3 Float) : Prop where
  finite : ∀ v ∈ m.vertices, FiniteVec v
  x : Bounds low.x high.x (m.vertices.toList.map fun v => storedNumber v.x)
  y : Bounds low.y high.y (m.vertices.toList.map fun v => storedNumber v.z)
  z : Bounds low.z high.z (m.vertices.toList.map fun v => storedNumber (-v.y))

/-- All coordinates are finite in 32 bits. -/
def IsStorable (m : Mesh Float) : Prop :=
  ∀ v ∈ m.vertices, v.x.abs < Binary32.overflowBound ∧ v.y.abs < Binary32.overflowBound ∧
    v.z.abs < Binary32.overflowBound

def isBounded (v : Vec3 Float) : Bool :=
  v.x.isFinite && v.y.isFinite && v.z.isFinite

/-- Whether the bounds of a block, if it has any, are finite. -/
def Block.isBounded (b : Block) : Bool :=
  b.bounds.all fun (low, high) => Glb.isBounded low && Glb.isBounded high

variable {m : Mesh Float}

theorem isBounded_positionBlock : (positionBlock m).isBounded =
    (Glb.isBounded (boundOf Scalar.least? (m.vertices.toList.map upright)) &&
      Glb.isBounded (boundOf Scalar.greatest? (m.vertices.toList.map upright))) := rfl

theorem finiteVec_of_isBounded (h : (positionBlock m).isBounded = true) :
    ∀ v ∈ m.vertices, FiniteVec v := by
  simp only [isBounded_positionBlock, isBounded, boundOf, Bool.and_eq_true] at h
  intro v hv
  have hm : Binary32.toFloat (single (upright v).x) ∈ (m.vertices.toList.map upright).map
      fun v => Binary32.toFloat (single v.x) :=
    List.mem_map_of_mem (List.mem_map_of_mem (Array.mem_toList_iff.2 hv))
  exact finiteVec_of_dot (isFinite_of_single ((bounds_of_isFinite h.1.1.1 h.2.1.1).1 _ hm))

/-- The bounds of finite points upright are those of their coordinates. -/
theorem boundOf_upright (best? : List Float → Option Float) (hf : ∀ v ∈ m.vertices, FiniteVec v) :
    boundOf best? (m.vertices.toList.map upright) =
      ⟨(best? (m.vertices.toList.map fun v => storedNumber v.x)).getD 0.0,
        (best? (m.vertices.toList.map fun v => storedNumber v.z)).getD 0.0,
        (best? (m.vertices.toList.map fun v => storedNumber (-v.y))).getD 0.0⟩ := by
  have along : ∀ axis c : Vec3 Float → Float,
      (∀ v, FiniteVec v → Same (axis (upright v)) (c v)) →
      (m.vertices.toList.map upright).map (fun v => Binary32.toFloat (single (axis v))) =
        m.vertices.toList.map fun v => storedNumber (c v) := by
    intro axis c hs
    rw [List.map_map]
    refine List.map_congr_left fun v hv => ?_
    rw [Function.comp_apply, single_eq_of_same (hs v (hf v (Array.mem_toList_iff.1 hv))),
      storedNumber]
  rw [boundOf]
  dsimp only
  rw [along Vec3.x Vec3.x fun v hv => (same_upright hv).1,
    along Vec3.y Vec3.z fun v hv => (same_upright hv).2.1,
    along Vec3.z (fun v => -v.y) fun v hv => (same_upright hv).2.2]

/-- The bounds of positions are finite exactly if all coordinates are in 32 bits. -/
theorem isBounded_positionBlock_iff : (positionBlock m).isBounded = true ↔ IsStorable m := by
  have hstored : ∀ c : Vec3 Float → Float,
      (∀ v ∈ m.vertices.toList.map fun v => storedNumber (c v), v.isFinite = true) ↔
        ∀ v ∈ m.vertices, (c v).abs < Binary32.overflowBound := fun c => by
    simp only [List.forall_mem_map, Array.mem_toList_iff]
    exact forall₂_congr fun v _ => isFinite_single_iff
  have hiff : (∀ v ∈ m.vertices, FiniteVec v) →
      ((positionBlock m).isBounded = true ↔ IsStorable m) := by
    intro hf
    have hx := isFinite_extremes_iff.trans (hstored Vec3.x)
    have hy := isFinite_extremes_iff.trans (hstored Vec3.z)
    have hz := isFinite_extremes_iff.trans (hstored fun v => -v.y)
    simp only [abs_neg_eq] at hz
    rw [isBounded_positionBlock, boundOf_upright _ hf, boundOf_upright _ hf]
    simp only [isBounded, Bool.and_eq_true]
    constructor
    · rintro ⟨⟨⟨hlx, hly⟩, hlz⟩, ⟨hhx, hhy⟩, hhz⟩ v hv
      exact ⟨hx.1 ⟨hlx, hhx⟩ v hv, hz.1 ⟨hlz, hhz⟩ v hv, hy.1 ⟨hly, hhy⟩ v hv⟩
    · intro h
      obtain ⟨hlx, hhx⟩ := hx.2 fun v hv => (h v hv).1
      obtain ⟨hly, hhy⟩ := hy.2 fun v hv => (h v hv).2.2
      obtain ⟨hlz, hhz⟩ := hz.2 fun v hv => (h v hv).2.1
      exact ⟨⟨⟨hlx, hly⟩, hlz⟩, ⟨hhx, hhy⟩, hhz⟩
  constructor
  · intro h
    exact (hiff (finiteVec_of_isBounded h)).1 h
  · intro h
    refine (hiff fun v hv => ?_).2 h
    obtain ⟨hx, hy, hz⟩ := h v hv
    exact ⟨Binary32.isFinite_of_abs_lt hx, Binary32.isFinite_of_abs_lt hy, Binary32.isFinite_of_abs_lt hz⟩

end Format.Glb

end Relief
