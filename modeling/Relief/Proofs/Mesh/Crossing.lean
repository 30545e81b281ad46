import Mathlib
import Relief.Proofs.Mesh.Contour
import Relief.Proofs.Number.Exact

/-!
Where a line of equal height crosses an edge. In exact numbers this point is at the level, between the ends
of the edge, and the same in both directions of the edge, so that the segments of neighbouring triangles meet.
-/
namespace Relief.Mesh

variable {K : Type} [ExactNumber K]

/-! ### One edge -/

section Edge

variable {level : K} {u v : Vec3 K}

/-- How far along the way from one point to another the level is reached. -/
def share (level : K) (u v : Vec3 K) : K := (level - u.z) / (v.z - u.z)

/-- A point between two others at a level, found by a division that is not by zero. -/
structure Reaches (level : K) (u v p : Vec3 K) : Prop where
  rise_ne_zero : v.z - u.z ≠ 0
  share_nonneg : 0 ≤ share level u v
  share_le_one : share level u v ≤ 1
  eq_towards : p = u.towards v (share level u v)
  height : p.z = level

theorem isAbove_eq_false : isAbove level u = false ↔ u.z < level := by
  rw [← Bool.not_eq_true, isAbove_iff]
  exact not_le

theorem sides_iff : (isAbove level u != isAbove level v) = true ↔
    (u.z < level ∧ level ≤ v.z) ∨ (v.z < level ∧ level ≤ u.z) := by
  rw [← isAbove_iff, ← isAbove_eq_false, ← isAbove_iff, ← isAbove_eq_false]
  cases isAbove level u <;> cases isAbove level v <;> decide

theorem towards_z (u v : Vec3 K) (t : K) : (u.towards v t).z = u.z + t * (v.z - u.z) := rfl

theorem crossing?_of_sides (h : (isAbove level u != isAbove level v) = true) :
    crossing? level u v = some (u.towards v (share level u v)) := if_pos h

theorem rise_ne_zero (h : (isAbove level u != isAbove level v) = true) : v.z - u.z ≠ 0 := by
  obtain ⟨hu, hv⟩ | ⟨hv, hu⟩ := sides_iff.1 h
  · exact (sub_pos.2 (hu.trans_le hv)).ne'
  · exact (sub_neg.2 (hv.trans_le hu)).ne

theorem share_mem (h : (isAbove level u != isAbove level v) = true) :
    0 ≤ share level u v ∧ share level u v ≤ 1 := by
  rw [share]
  obtain ⟨hu, hv⟩ | ⟨hv, hu⟩ := sides_iff.1 h
  · have hrise : 0 < v.z - u.z := sub_pos.2 (hu.trans_le hv)
    exact ⟨div_nonneg (sub_nonneg.2 hu.le) hrise.le, (div_le_one hrise).2 (sub_le_sub_right hv _)⟩
  · have hrise : v.z - u.z < 0 := sub_neg.2 (hv.trans_le hu)
    exact ⟨div_nonneg_of_nonpos (sub_nonpos.2 hu) hrise.le,
      (div_le_one_of_neg hrise).2 (sub_le_sub_right hv.le _)⟩

theorem reaches_towards (h : (isAbove level u != isAbove level v) = true) :
    Reaches level u v (u.towards v (share level u v)) where
  rise_ne_zero := rise_ne_zero h
  share_nonneg := (share_mem h).1
  share_le_one := (share_mem h).2
  eq_towards := rfl
  height := by rw [towards_z, share, div_mul_cancel₀ _ (rise_ne_zero h), add_sub_cancel]

/-- What is left of the way is the share from the other end. -/
theorem share_add_share (h : (isAbove level u != isAbove level v) = true) :
    share level u v + share level v u = 1 := by
  have hrise := rise_ne_zero h
  have hneg : u.z - v.z = -(v.z - u.z) := (neg_sub _ _).symm
  rw [share, share, hneg, div_neg, ← sub_eq_add_neg, ← sub_div, sub_sub_sub_cancel_left, div_self hrise]

theorem towards_share_comm (h : (isAbove level u != isAbove level v) = true) :
    u.towards v (share level u v) = v.towards u (share level v u) := by
  rw [eq_sub_of_add_eq (share_add_share h)]
  simp only [Vec3.towards, Vec3.mk.injEq]
  refine ⟨?_, ?_, ?_⟩ <;> ring

/-- An edge is crossed at one point, from whichever end it is walked. -/
theorem crossing?_comm (level : K) (u v : Vec3 K) : crossing? level u v = crossing? level v u := by
  have hc : (isAbove level u != isAbove level v) = (isAbove level v != isAbove level u) := bne_comm
  by_cases h : (isAbove level u != isAbove level v) = true
  · rw [crossing?_of_sides h, towards_share_comm h, crossing?_of_sides (hc ▸ h)]
  · rw [crossing?, if_neg h, crossing?, if_neg (hc ▸ h)]

end Edge

/-! ### The whole line -/

variable {m : Mesh K} {level : K} {t : Triangle} {u v : Nat} {e : Nat × Nat}

theorem crossing?_of_crosses (h : m.crosses level e = true) :
    crossing? level (m.vertex e.1) (m.vertex e.2) = some (m.crossingPoint level e) := crossing?_of_sides h

/-- A triangle with heights on both sides of a level has an end of its segment on each edge with ends on
both sides. -/
theorem exists_segment_of_mem_edges (hf : m.AllFinite t) (he : e ∈ t.edges)
    (hc : m.crosses level e = true) : ∃ s, m.segment? level t = some s ∧
      (m.crossingPoint level e = s.start ∨ m.crossingPoint level e = s.stop) := by
  have hs : ¬ m.OneSided level t := not_oneSided_of_joins hc (.inl he)
  obtain ⟨e₁, e₂, hfilter, hsegment⟩ := segment?_of_mixed ⟨hf, hs⟩
  have hmem : e ∈ t.edges.filter (m.crosses level) := List.mem_filter.2 ⟨he, hc⟩
  rw [hfilter, List.mem_pair] at hmem
  refine ⟨_, hsegment, ?_⟩
  obtain rfl | rfl := hmem
  · exact .inl rfl
  · exact .inr rfl

theorem reaches_crossingPoint (h : m.crosses level e = true) :
    Reaches level (m.vertex e.1) (m.vertex e.2) (m.crossingPoint level e) := reaches_towards h

theorem Spans.reaches {s : Segment K} (h : m.Spans level t s) :
    ∃ e e', t.edges.filter (m.crosses level) = [e, e'] ∧
      Reaches level (m.vertex e.1) (m.vertex e.2) s.start ∧
      Reaches level (m.vertex e'.1) (m.vertex e'.2) s.stop := by
  obtain ⟨e, e', hfilter, rfl⟩ := h
  have hcrosses : ∀ e ∈ t.edges.filter (m.crosses level), m.crosses level e = true := fun e he =>
    (List.mem_filter.1 he).2
  rw [hfilter, List.forall_mem_cons, List.forall_mem_singleton] at hcrosses
  exact ⟨e, e', hfilter, reaches_crossingPoint hcrosses.1, reaches_crossingPoint hcrosses.2⟩

/-- In exact numbers no point of a line is found by a division by zero, and both ends of every segment are at
the level, each on an edge of its triangle, between the ends of that edge. The two triangles on the sides of
an edge find the same point on it, although they walk it in opposite directions, and their segments meet
there. -/
theorem contour_exact (m : Mesh K) (level : K) :
    (∀ t ∈ m.triangles, ∀ e ∈ t.edges, m.crosses level e = true →
      (m.vertex e.2).z - (m.vertex e.1).z ≠ 0) ∧
    List.Forall₂ (fun t s => ∃ e e', t.edges.filter (m.crosses level) = [e, e'] ∧
        Reaches level (m.vertex e.1) (m.vertex e.2) s.start ∧
        Reaches level (m.vertex e'.1) (m.vertex e'.2) s.stop)
      (m.triangles.filter (m.Mixed level)) (m.contour level).segments ∧
    ∀ u v, m.crosses level (u, v) = true → (∃ t ∈ m.triangles, t.Joins u v) →
      ¬ Grid.OnSide m.resolution u v →
      ∃ t ∈ m.triangles, ∃ t' ∈ m.triangles, t ≠ t' ∧ (u, v) ∈ t.edges ∧ (v, u) ∈ t'.edges ∧
        (∀ s ∈ m.triangles, s.Joins u v → s = t ∨ s = t') ∧
        ∃ p, crossing? level (m.vertex u) (m.vertex v) = some p ∧
          crossing? level (m.vertex v) (m.vertex u) = some p ∧
          (m.AllFinite t → ∃ s, m.segment? level t = some s ∧ (p = s.start ∨ p = s.stop)) ∧
          (m.AllFinite t' → ∃ s, m.segment? level t' = some s ∧ (p = s.start ∨ p = s.stop)) := by
  refine ⟨fun t _ e _ hc => rise_ne_zero hc,
    (forall₂_spans m level m.triangles).imp fun _ _ => Spans.reaches, fun u v hc hj hs => ?_⟩
  obtain ⟨t, ht, t', ht', hne, he, he', honly⟩ := Grid.exists_neighbours hj hs
  have hback : m.crosses level (v, u) = true := crosses_comm m level u v ▸ hc
  have hforth := crossing?_of_crosses hc
  have heq : m.crossingPoint level (v, u) = m.crossingPoint level (u, v) := by
    refine Option.some.inj ((crossing?_of_crosses hback).symm.trans ?_)
    rw [crossing?_comm]
    exact hforth
  refine ⟨t, ht, t', ht', hne, he, he', honly, m.crossingPoint level (u, v), hforth, ?_,
    fun hf => exists_segment_of_mem_edges hf he hc, fun hf => ?_⟩
  · rw [crossing?_comm]
    exact hforth
  · rw [← heq]
    exact exists_segment_of_mem_edges hf he' hback

/-- Over one cell that rises from one side to the other, the line at the greatest height goes through a
corner, which both triangles find on the diagonal: one at its end and the other at its start. -/
theorem contour_exact_corner :
    let m : Mesh ℚ :=
      ⟨1, #[⟨0, 0, 0⟩, ⟨0, 1, 0⟩, ⟨1, 0, 1⟩, ⟨1, 1, 1⟩], #[true, true, true, true], 0, 1⟩
    (m.crosses 1 (1, 2) = true ∧ (∃ t ∈ m.triangles, t.Joins 1 2) ∧
      ¬ Grid.OnSide m.resolution 1 2) ∧
    (m.vertex 2).z - (m.vertex 1).z ≠ 0 ∧
    ∃ p, crossing? 1 (m.vertex 1) (m.vertex 2) = some p ∧
      crossing? 1 (m.vertex 2) (m.vertex 1) = some p ∧ (p.x, p.y, p.z) = (1, 0, 1) := by
  intro m
  obtain ⟨hrise, -, hmeet⟩ := contour_exact m 1
  have hc : m.crosses 1 (1, 2) = true := by decide +kernel
  have hj : ∃ t ∈ m.triangles, t.Joins 1 2 := by decide
  have hs : ¬ Grid.OnSide m.resolution 1 2 := by decide
  obtain ⟨-, -, -, -, -, -, -, -, p, hforth, hback, -, -⟩ := hmeet 1 2 hc hj hs
  refine ⟨⟨hc, hj, hs⟩, hrise ⟨1, 2, 3⟩ (by decide) (1, 2) (by decide) hc, p, hforth, hback, ?_⟩
  have hp : (crossing? 1 (m.vertex 1) (m.vertex 2)).map (fun p => (p.x, p.y, p.z)) =
      some (1, 0, 1) := by
    decide +kernel
  rw [hforth] at hp
  exact Option.some.inj hp

end Relief.Mesh
