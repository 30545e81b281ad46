import Mathlib
import Relief.Format.Plain
import Relief.Proofs.Color
import Relief.Proofs.Format.Coordinate
import Relief.Proofs.Format.SceneLayout
import Relief.Proofs.Mesh.Triangulation
import Relief.Proofs.Workspace.Answer

/-!
What becomes of a workspace that is exported. As text its surfaces are always written; as a scene they are not
if a color is none, a coordinate is infinite in 32 bits, or the file is too long.
-/
namespace Relief

namespace Format.Glb

open Number

variable {mode : Color.Mode} {surfaces : List Surface} {bodies : List Body} {s : Surface} {b : Body}

/-! ### Colors of surfaces -/

/-- Whether the color of a surface is none. -/
def hasBadColor (s : Surface) : Bool :=
  (Color.channels? s.color).isNone

theorem bodyOf_of_bad (mode : Color.Mode) (h : hasBadColor s = true) :
    bodyOf mode s = .error (.malformed s.color) := by
  rw [bodyOf, Color.ofText, Option.isNone_iff_eq_none.1 h]
  rfl

theorem bodyOf_of_good (mode : Color.Mode) (h : hasBadColor s = false) :
    ∃ b, bodyOf mode s = .ok b := by
  obtain ⟨c, hc⟩ := Option.isSome_iff_exists.1 (Option.isNone_eq_false_iff.1 h)
  rw [bodyOf, Color.ofText, hc]
  exact ⟨_, rfl⟩

/-- The first color that is none is the error. -/
theorem mapM_of_bad (mode : Color.Mode) (h : surfaces.find? hasBadColor = some s) :
    surfaces.mapM (bodyOf mode) = .error (.malformed s.color) := by
  induction surfaces with
  | nil => cases h
  | cons s' surfaces ih =>
    rw [List.mapM_cons]
    cases hs : hasBadColor s' with
    | true =>
      rw [List.find?_cons_of_pos hs] at h
      obtain rfl := Option.some.inj h
      rw [bodyOf_of_bad mode hs]
      rfl
    | false =>
      rw [List.find?_cons_of_neg (by simp [hs])] at h
      obtain ⟨b, hb⟩ := bodyOf_of_good mode hs
      rw [hb, ih h]
      rfl

theorem mapM_of_good (mode : Color.Mode) (h : ∀ s ∈ surfaces, hasBadColor s = false) :
    ∃ bodies, surfaces.mapM (bodyOf mode) = .ok bodies := by
  induction surfaces with
  | nil => exact ⟨[], rfl⟩
  | cons s surfaces ih =>
    obtain ⟨hs, h⟩ := List.forall_mem_cons.1 h
    obtain ⟨b, hb⟩ := bodyOf_of_good mode hs
    obtain ⟨bodies, hbodies⟩ := ih h
    rw [List.mapM_cons, hb, hbodies]
    exact ⟨b :: bodies, rfl⟩

/-! ### Numbers in a scene -/

theorem isFinite_shares (h : bodyOf mode s = .ok b) : ∀ v ∈ sharesOf b, v.isFinite = true := by
  obtain ⟨color, hc, hb⟩ := bind_eq_ok_iff.1 h
  have hone : (1.0 : Float).abs < Binary32.overflowBound := by decide +kernel
  have hbase : ∀ v ∈ b.base.toList, v.abs < Binary32.overflowBound := by
    rw [← Except.ok.inj hb]
    dsimp only
    split
    · simpa [white, Color.toList] using hone
    · exact Color.abs_lt_of_ofText hc
  simp only [sharesOf, List.forall_mem_map, List.forall_mem_append, List.forall_mem_singleton]
  exact ⟨fun v hv => Binary32.isFinite_ofFloat_iff.2 (hbase v hv), Binary32.isFinite_ofFloat_iff.2 hone⟩

/-- Of the blocks of a surface only the positions have bounds. -/
theorem isBounded_blocks_iff (h : bodyOf mode s = .ok b) :
    (∀ block ∈ b.blocks, block.isBounded = true) ↔ IsStorable s.mesh := by
  obtain ⟨color, -, hb⟩ := bind_eq_ok_iff.1 h
  have hpositions : b.positions = positionBlock s.mesh := by rw [← Except.ok.inj hb]
  have hnormals : b.normals.isBounded = true := by rw [← Except.ok.inj hb]; rfl
  have hindices : b.indices.isBounded = true := by rw [← Except.ok.inj hb]; rfl
  have hcolors : ∀ block ∈ b.colors.toList, block.isBounded = true := by
    rw [← Except.ok.inj hb]
    dsimp only
    cases s.mesh.colors mode color with
    | none => exact List.forall_mem_nil _
    | some colors => exact List.forall_mem_singleton.2 rfl
  rw [← isBounded_positionBlock_iff, ← hpositions]
  simp only [Body.blocks, List.forall_mem_append, List.forall_mem_cons, hnormals, hindices]
  exact ⟨fun h => h.1.1.1, fun h =>
    ⟨⟨⟨h, trivial, List.forall_mem_nil _⟩, hcolors⟩, trivial, List.forall_mem_nil _⟩⟩

theorem forall_mem_iff_of_forall₂ {α β : Type} {R : α → β → Prop} {P : α → Prop} {Q : β → Prop}
    {as : List α} {bs : List β} (h : List.Forall₂ R as bs) (hpq : ∀ a b, R a b → (P a ↔ Q b)) :
    (∀ a ∈ as, P a) ↔ ∀ b ∈ bs, Q b := by
  induction h with
  | nil => simp
  | cons hab _ ih => rw [List.forall_mem_cons, List.forall_mem_cons, hpq _ _ hab, ih]

/-- What a file can be made of: all coordinates are finite in 32 bits, and the file is short enough before
the colors are rounded and after it. -/
structure Storable (surfaces : List Surface) (bodies : List Body) : Prop where
  finite : ∀ s ∈ surfaces, IsStorable s.mesh
  fits : Fits (sceneJson bodies) (chunkOf bodies)
  fits_rounded : Fits (sceneJson bodies).rounded (chunkOf bodies)

theorem writable_iff (hm : surfaces.mapM (bodyOf mode) = .ok bodies) :
    Writable bodies ↔ Storable surfaces bodies := by
  have hbodies := mapM_eq_ok hm
  have hshares : ∀ b ∈ bodies, ∀ v ∈ sharesOf b, v.isFinite = true :=
    (forall_mem_iff_of_forall₂ (P := fun _ => True) hbodies fun _ _ h =>
      iff_of_true trivial (isFinite_shares h)).1 fun _ _ => trivial
  have hblocks : (∀ block ∈ bodies.flatMap Body.blocks, block.isBounded = true) ↔
      ∀ s ∈ surfaces, IsStorable s.mesh := by
    simp only [List.forall_mem_flatMap]
    exact (forall_mem_iff_of_forall₂ hbodies fun _ _ h => (isBounded_blocks_iff h).symm).symm
  have hfinite : (sceneJson bodies).isFinite = true ↔ ∀ s ∈ surfaces, IsStorable s.mesh := by
    rw [isFinite_sceneJson, hblocks, and_iff_left hshares]
  exact ⟨fun h => ⟨hfinite.1 h.finite, h.fits, h.fits_rounded⟩,
    fun h => ⟨hfinite.2 h.finite, h.fits, h.fits_rounded⟩⟩

/-! ### Outcomes of a scene -/

theorem ofSurfaces_of_bad (mode : Color.Mode) (h : surfaces.find? hasBadColor = some s) :
    ofSurfaces mode surfaces = .error (.color (.malformed s.color)) := by
  have hn : surfaces ≠ [] := List.ne_nil_of_mem (List.mem_of_find?_eq_some h)
  rw [ofSurfaces, ofSurfacesBy, require_eq_ok hn]
  change ((surfaces.mapM (bodyOf mode)).mapError Error.color).bind _ = _
  rw [mapM_of_bad mode h]
  rfl

theorem ofSurfaces_of_good (hn : surfaces ≠ []) (hm : surfaces.mapM (bodyOf mode) = .ok bodies) :
    (Storable surfaces bodies → ∃ bytes, ofSurfaces mode surfaces = .ok bytes) ∧
      (¬ Storable surfaces bodies → ofSurfaces mode surfaces = .error .tooLarge) := by
  refine ⟨fun h => ?_, fun h => ofSurfaces_of_not_writable hn hm (mt (writable_iff hm).1 h)⟩
  obtain ⟨bytes, hb, -⟩ := ofSurfaces_of_writable hn hm ((writable_iff hm).2 h)
  exact ⟨bytes, hb⟩

end Format.Glb

/-! ### Surfaces -/

namespace Mesh

/-- A vertex for every point of the grid. -/
structure Complete (m : Mesh Float) : Prop where
  size : m.vertices.size = m.side ^ 2
  corners : ∀ t ∈ m.triangles, ∀ k ∈ t.indices, k < m.vertices.size

theorem complete_ofHeights (d : Domain Float) (heights : Array (Option Float)) :
    Complete (ofHeights d heights) := by
  have hs : (ofHeights d heights).vertices.size = (d.resolution + 1) ^ 2 :=
    Array.size_ofFn.trans (Nat.pow_two _).symm
  refine ⟨hs, fun t ht k hk => ?_⟩
  rw [hs]
  exact Grid.indices_lt ht k hk

/-- The first vertex is on the left side. -/
theorem exists_left (d : Domain Float) (heights : Array (Option Float)) :
    ∃ v ∈ (ofHeights d heights).vertices, v.x = d.xAt 0 := by
  have hpos : 0 < d.side * d.side := Nat.mul_pos d.resolution.succ_pos d.resolution.succ_pos
  refine ⟨_, Array.mem_ofFn.2 ⟨⟨0, hpos⟩, rfl⟩, ?_⟩
  dsimp only
  rw [Nat.zero_div]

theorem exists_ofHeights {f : Evaluator} {d : Domain Float} {m : Mesh Float}
    (h : ofEvaluator f d = .ok m) : ∃ heights, m = ofHeights d heights := by
  obtain ⟨z, -, hm⟩ := bind_eq_ok_iff.1 h
  exact ⟨_, (Except.ok.inj hm).symm⟩

end Mesh

namespace Workspace

open Format

variable {w : Workspace} {s : Surface}

theorem Reachable.complete (h : Reachable w) (hs : s ∈ w.surfaces) : s.mesh.Complete := by
  obtain ⟨e, he, hse⟩ := List.mem_filterMap.1 hs
  obtain ⟨m, hm, rfl⟩ := Option.map_eq_some_iff.1 hse
  obtain ⟨-, hnone, -⟩ | ⟨f, m', d, -, hm', -, ho⟩ :=
    (h.consistent.sound e (List.mem_filter.1 he).1).whole
  · rw [hnone] at hm
    cases hm
  · obtain rfl : m' = m := Option.some.inj (hm'.symm.trans hm)
    obtain ⟨heights, rfl⟩ := Mesh.exists_ofHeights ho
    exact Mesh.complete_ofHeights d heights

/-- A workspace without surfaces is refused by every export. Otherwise both texts are made, for which no
number has too many digits and no corner of a triangle is missing. A scene is not made if a color is none,
the first such color being the error. If all are colors, it is made exactly if all coordinates are finite in
32 bits and the file is short enough. -/
theorem export_outcomes (h : Reachable w) (name : String) (mode : Color.Mode) :
    (w.surfaces = [] → stl name w.surfaces = .error .nothing ∧ csv w.surfaces = .error .nothing ∧
      Glb.ofSurfaces mode w.surfaces = .error (.notExported .nothing)) ∧
    (w.surfaces ≠ [] → (∃ text, stl name w.surfaces = .ok text) ∧
      (∃ text, csv w.surfaces = .ok text) ∧
      (∀ s, w.surfaces.find? Glb.hasBadColor = some s →
        Glb.ofSurfaces mode w.surfaces = .error (.color (.malformed s.color))) ∧
      ((∀ s ∈ w.surfaces, Glb.hasBadColor s = false) →
        ∃ bodies, w.surfaces.mapM (Glb.bodyOf mode) = .ok bodies ∧
          (Glb.Storable w.surfaces bodies → ∃ bytes, Glb.ofSurfaces mode w.surfaces = .ok bytes) ∧
          (¬ Glb.Storable w.surfaces bodies →
            Glb.ofSurfaces mode w.surfaces = .error .tooLarge))) ∧
    (∀ c, toFixed csvPlaces c = .ok (placesText csvPlaces c)) ∧
    ∀ s ∈ w.surfaces, s.mesh.vertices.size = s.mesh.side ^ 2 ∧
      ∀ t ∈ s.mesh.triangles, ∀ k ∈ t.indices, k < s.mesh.vertices.size := by
  refine ⟨fun hn => ?_, fun hn => ⟨?_, ?_, fun s hs => Glb.ofSurfaces_of_bad mode hs, fun hs => ?_⟩,
    toFixed_eq_ok (by decide) (by decide), fun s hs => ⟨(h.complete hs).size, (h.complete hs).corners⟩⟩
  · rw [hn]
    exact ⟨rfl, rfl, rfl⟩
  · rw [stl, require_eq_ok hn]
    exact ⟨_, rfl⟩
  · rw [csv, require_eq_ok hn]
    exact ⟨_, rfl⟩
  · obtain ⟨bodies, hm⟩ := Glb.mapM_of_good mode hs
    exact ⟨bodies, hm, Glb.ofSurfaces_of_good hn hm⟩

/-- An equation whose color is a word is written as text, and its scene fails for the color. -/
theorem export_outcomes_red : ∃ w, Reachable w ∧ (∃ text, stl solidName w.surfaces = .ok text) ∧
    (∃ text, csv w.surfaces = .ok text) ∧
    Glb.ofSurfaces .solid w.surfaces = .error (.color (.malformed "red")) := by
  obtain ⟨f, hf⟩ := Evaluator.compile_variable
  have hempty : Reachable (empty .standard .solid) := ⟨_, _, .refl⟩
  obtain ⟨m, h⟩ := hempty.drawn (by decide +kernel) hf "red"
  obtain ⟨hstl, hcsv, hred, -⟩ := (export_outcomes h solidName .solid).2.1 (List.cons_ne_nil _ _)
  have hbad : Glb.hasBadColor ⟨1, "x", "red", m⟩ = true := by
    change (Color.channels? "red").isNone = true
    decide +kernel
  exact ⟨_, h, hstl, hcsv, hred _ (List.find?_cons_of_pos hbad)⟩

/-- One cell beyond the numbers of 32 bits. -/
def wideCell : Domain Float where
  xmin := -1e300
  xmax := 1e300
  ymin := -5.0
  ymax := 5.0
  resolution := 1
  x_finite := by decide +kernel
  y_finite := Domain.standard.y_finite
  xmin_lt_xmax := by decide +kernel
  ymin_lt_ymax := Domain.standard.ymin_lt_ymax
  resolution_pos := by decide

/-- A surface with a color whose scene fails in spite of it. -/
theorem scene_of_wideCell : ∃ w, Reachable w ∧
    (∀ s ∈ w.surfaces, Glb.hasBadColor s = false) ∧
    Glb.ofSurfaces .solid w.surfaces = .error .tooLarge := by
  obtain ⟨f, hf⟩ := Evaluator.compile_variable
  have hempty : Reachable (empty wideCell .solid) := ⟨_, _, .refl⟩
  obtain ⟨m, h⟩ := hempty.drawn (by decide +kernel) hf "#6366f1"
  let e := (undrawn 1 "x" "#6366f1" true).install f m wideCell
  let surface : Surface := ⟨1, "x", "#6366f1", m⟩
  have hgood : ∀ s ∈ [surface], Glb.hasBadColor s = false := by
    rw [List.forall_mem_singleton]
    change (Color.channels? "#6366f1").isNone = false
    decide +kernel
  obtain ⟨bodies, hb⟩ := Glb.mapM_of_good .solid hgood
  refine ⟨_, h, hgood, (Glb.ofSurfaces_of_good (List.cons_ne_nil _ _) hb).2 fun hs => ?_⟩
  -- the first corner is on the left side of the cell
  obtain ⟨-, hnone, -⟩ | ⟨_, _, d, -, hm, hd, ho⟩ :=
    (h.consistent.sound e (List.mem_singleton_self e)).whole
  · cases hnone
  obtain rfl : m = _ := Option.some.inj hm
  obtain rfl : wideCell = d := Option.some.inj hd
  obtain ⟨heights, rfl⟩ := Mesh.exists_ofHeights ho
  obtain ⟨v, hv, hx⟩ := Mesh.exists_left wideCell heights
  have hlt := (hs.finite surface (List.mem_singleton_self _) v hv).1
  rw [hx] at hlt
  exact absurd hlt (by decide +kernel)

end Workspace

end Relief
