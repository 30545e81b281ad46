import Mathlib
import Relief.Mesh.Contour
import Relief.Proofs.Mesh.Triangulation

/-!
A line of equal height crosses a triangle on two of its edges or on none. So the segments of neighbouring
triangles belong to one edge, and a line ends only at the border or next to a point without a height.
-/
namespace Relief.Mesh

variable {α : Type} [Scalar α]

/-- Whether the ends of an edge are on different sides of a level. -/
def crosses (m : Mesh α) (level : α) (e : Nat × Nat) : Bool :=
  isAbove level (m.vertex e.1) != isAbove level (m.vertex e.2)

/-- Where a straight edge is at the level. -/
def crossingPoint (m : Mesh α) (level : α) (e : Nat × Nat) : Vec3 α :=
  (m.vertex e.1).towards (m.vertex e.2)
    ((level - (m.vertex e.1).z) / ((m.vertex e.2).z - (m.vertex e.1).z))

def AllFinite (m : Mesh α) (t : Triangle) : Prop := ∀ k ∈ t.indices, m.isFinite k = true

/-- Whether all corners are on the same side of a level. -/
def OneSided (m : Mesh α) (level : α) (t : Triangle) : Prop :=
  ∀ u ∈ t.indices, ∀ v ∈ t.indices, isAbove level (m.vertex u) = isAbove level (m.vertex v)

def Mixed (m : Mesh α) (level : α) (t : Triangle) : Prop := m.AllFinite t ∧ ¬ m.OneSided level t

instance (m : Mesh α) : DecidablePred m.AllFinite := fun t =>
  inferInstanceAs (Decidable (∀ k ∈ t.indices, m.isFinite k = true))

instance (m : Mesh α) (level : α) : DecidablePred (m.OneSided level) := fun t =>
  inferInstanceAs (Decidable (∀ u ∈ t.indices, ∀ v ∈ t.indices,
    isAbove level (m.vertex u) = isAbove level (m.vertex v)))

instance (m : Mesh α) (level : α) : DecidablePred (m.Mixed level) := fun _ =>
  inferInstanceAs (Decidable (_ ∧ _))

/-- The edges on which the line enters and leaves triangles, triangle by triangle. -/
def crossedEdges (m : Mesh α) (level : α) : List (Nat × Nat) :=
  (m.triangles.filter (m.Mixed level)).flatMap fun t => t.edges.filter (m.crosses level)

/-- An edge between two points, in either direction. -/
def Along (u v : Nat) (e : Nat × Nat) : Prop := e = (u, v) ∨ e = (v, u)

instance (u v : Nat) : DecidablePred (Along u v) := fun _ => inferInstanceAs (Decidable (_ ∨ _))

variable {m : Mesh α} {level : α} {t : Triangle} {u v : Nat} {e : Nat × Nat}

/-! ### One triangle -/

theorem isAbove_iff {p : Vec3 α} : isAbove level p = true ↔ level ≤ p.z := decide_eq_true_iff

theorem crosses_comm (m : Mesh α) (level : α) (u v : Nat) :
    m.crosses level (u, v) = m.crosses level (v, u) := by
  simp only [crosses, bne_comm]

theorem oneSided_iff : m.OneSided level t ↔
    isAbove level (m.vertex t.a) = isAbove level (m.vertex t.b) ∧
      isAbove level (m.vertex t.b) = isAbove level (m.vertex t.c) := by
  constructor
  · intro h
    exact ⟨h _ (by simp [Triangle.indices]) _ (by simp [Triangle.indices]),
      h _ (by simp [Triangle.indices]) _ (by simp [Triangle.indices])⟩
  · rintro ⟨hab, hbc⟩ u hu v hv
    simp only [Triangle.indices, List.mem_cons, List.not_mem_nil, or_false] at hu hv
    obtain rfl | rfl | rfl := hu <;> obtain rfl | rfl | rfl := hv <;> simp [hab, hbc]

/-- A line goes through two edges of a triangle or through none. -/
theorem crossing_edges (m : Mesh α) (level : α) (t : Triangle) :
    (m.OneSided level t ∧ t.edges.filter (m.crosses level) = []) ∨
    (¬ m.OneSided level t ∧ ∃ e e', t.edges.filter (m.crosses level) = [e, e']) := by
  rw [oneSided_iff]
  cases ha : isAbove level (m.vertex t.a) <;> cases hb : isAbove level (m.vertex t.b) <;>
    cases hc : isAbove level (m.vertex t.c) <;> simp [Triangle.edges, crosses, ha, hb, hc]

/-- The points of a triangle that are looked for are those on the edges that the line crosses. -/
theorem crossings_eq (m : Mesh α) (level : α) (t : Triangle) :
    [crossing? level (m.vertex t.a) (m.vertex t.b), crossing? level (m.vertex t.b) (m.vertex t.c),
      crossing? level (m.vertex t.c) (m.vertex t.a)].filterMap id =
      (t.edges.filter (m.crosses level)).map (m.crossingPoint level) := by
  have hc : ∀ e : Nat × Nat, crossing? level (m.vertex e.1) (m.vertex e.2) =
      (Option.guard (m.crosses level) e).map (m.crossingPoint level) := by
    intro e
    rw [crossing?, Option.guard, crosses]
    split <;> rfl
  have hl : [crossing? level (m.vertex t.a) (m.vertex t.b),
      crossing? level (m.vertex t.b) (m.vertex t.c), crossing? level (m.vertex t.c) (m.vertex t.a)] =
      t.edges.map fun e => (Option.guard (m.crosses level) e).map (m.crossingPoint level) := by
    rw [Triangle.edges, ← funext hc]
    rfl
  rw [hl, List.filterMap_map, ← List.filterMap_eq_filter, List.map_filterMap]
  rfl

theorem segment?_eq (m : Mesh α) (level : α) (t : Triangle) : m.segment? level t =
    if m.AllFinite t then
      match (t.edges.filter (m.crosses level)).map (m.crossingPoint level) with
      | [p, q] => some ⟨p, q⟩
      | _ => none
    else none := by
  rw [segment?]
  simp only [List.all_eq_true]
  rw [crossings_eq]
  rfl

theorem segment?_of_mixed (h : m.Mixed level t) : ∃ e e',
    t.edges.filter (m.crosses level) = [e, e'] ∧
      m.segment? level t = some ⟨m.crossingPoint level e, m.crossingPoint level e'⟩ := by
  obtain ⟨hs, -⟩ | ⟨-, e, e', he⟩ := crossing_edges m level t
  · exact absurd hs h.2
  · refine ⟨e, e', he, ?_⟩
    rw [segment?_eq, if_pos h.1, he]
    rfl

theorem segment?_of_not_mixed (h : ¬ m.Mixed level t) : m.segment? level t = none := by
  rw [segment?_eq]
  split
  · next hf =>
    obtain ⟨-, he⟩ | ⟨hs, -⟩ := crossing_edges m level t
    · rw [he]
      rfl
    · exact absurd ⟨hf, hs⟩ h
  · rfl

/-- A triangle has an edge between two different points once or not at all. -/
theorem countP_along (hn : t.indices.Nodup) (huv : u ≠ v) :
    t.edges.countP (Along u v) = if t.Joins u v then 1 else 0 := by
  simp only [Triangle.indices, List.nodup_cons, List.mem_cons, List.not_mem_nil, or_false, not_or,
    not_false_iff, List.nodup_nil, and_true] at hn
  obtain ⟨⟨hab, hac⟩, hbc⟩ := hn
  split
  · next hj =>
    simp only [Triangle.Joins, Triangle.edges, List.mem_cons, Prod.mk.injEq, List.not_mem_nil,
      or_false] at hj
    obtain (⟨rfl, rfl⟩ | ⟨rfl, rfl⟩ | ⟨rfl, rfl⟩) | ⟨rfl, rfl⟩ | ⟨rfl, rfl⟩ | ⟨rfl, rfl⟩ := hj <;>
      simp [Along, Triangle.edges, hab, hac, hbc, Ne.symm hab, Ne.symm hac, Ne.symm hbc]
  · next hj =>
    refine List.countP_eq_zero.2 fun e he ha => hj ?_
    obtain rfl | rfl := of_decide_eq_true ha
    · exact .inl he
    · exact .inr he

theorem mem_indices_of_joins (h : t.Joins u v) : u ∈ t.indices ∧ v ∈ t.indices := by
  simp only [Triangle.Joins, Triangle.edges, List.mem_cons, Prod.mk.injEq, List.not_mem_nil,
    or_false] at h
  obtain (⟨rfl, rfl⟩ | ⟨rfl, rfl⟩ | ⟨rfl, rfl⟩) | ⟨rfl, rfl⟩ | ⟨rfl, rfl⟩ | ⟨rfl, rfl⟩ := h <;>
    simp [Triangle.indices]

theorem ne_of_crosses (h : m.crosses level (u, v) = true) : u ≠ v := by
  rintro rfl
  simp [crosses] at h

theorem not_oneSided_of_joins (h : m.crosses level (u, v) = true) (hj : t.Joins u v) :
    ¬ m.OneSided level t := by
  intro hs
  obtain ⟨hu, hv⟩ := mem_indices_of_joins hj
  rw [crosses, bne_iff_ne] at h
  exact h (hs u hu v hv)

/-- Of the edges of a triangle that the line crosses, one is that between two points on different sides. -/
theorem countP_crossed (h : m.crosses level (u, v) = true) (hn : t.indices.Nodup) :
    (t.edges.filter (m.crosses level)).countP (Along u v) = if t.Joins u v then 1 else 0 := by
  rw [List.countP_filter, ← countP_along hn (ne_of_crosses h)]
  refine List.countP_congr fun e _ => ?_
  rw [Bool.and_eq_true, and_iff_left_iff_imp]
  intro ha
  obtain rfl | rfl := of_decide_eq_true ha
  · exact h
  · rwa [crosses_comm]

/-! ### The whole line -/

/-- An edge with ends on different sides and no undefined corner next to it is crossed once for each of its
triangles. -/
theorem countP_flatMap_crossed (h : m.crosses level (u, v) = true) {ts : List Triangle}
    (hn : ∀ t ∈ ts, t.indices.Nodup) (hf : ∀ t ∈ ts, t.Joins u v → m.AllFinite t) :
    ((ts.filter (m.Mixed level)).flatMap fun t => t.edges.filter (m.crosses level)).countP
      (Along u v) = ts.countP (·.Joins u v) := by
  induction ts with
  | nil => rfl
  | cons t ts ih =>
    have ih := ih (fun t ht => hn t (List.mem_cons_of_mem _ ht))
      fun t ht => hf t (List.mem_cons_of_mem _ ht)
    have hc := countP_crossed h (hn t List.mem_cons_self)
    by_cases hj : t.Joins u v
    · have hm : m.Mixed level t := ⟨hf t List.mem_cons_self hj, not_oneSided_of_joins h hj⟩
      rw [if_pos hj] at hc
      rw [List.filter_cons_of_pos (by simpa using hm), List.flatMap_cons, List.countP_append, hc, ih,
        List.countP_cons_of_pos (by simpa using hj), Nat.add_comm]
    · rw [if_neg hj] at hc
      rw [List.countP_cons_of_neg (by simpa using hj), ← ih]
      by_cases hm : m.Mixed level t
      · rw [List.filter_cons_of_pos (by simpa using hm), List.flatMap_cons, List.countP_append, hc,
          Nat.zero_add]
      · rw [List.filter_cons_of_neg (by simpa using hm)]

theorem countP_crossedEdges (h : m.crosses level (u, v) = true)
    (he : ∃ t ∈ m.triangles, t.Joins u v)
    (hf : ∀ t ∈ m.triangles, t.Joins u v → m.AllFinite t) :
    (m.crossedEdges level).countP (Along u v) = if Grid.OnSide m.resolution u v then 1 else 2 := by
  have hn : ∀ t ∈ m.triangles, t.indices.Nodup := fun t ht => Grid.nodup_indices ht
  rw [crossedEdges, countP_flatMap_crossed h hn hf]
  have hc := Grid.countP_joins_of_exists he
  by_cases hs : Grid.OnSide m.resolution u v
  · rw [if_pos hs] at hc ⊢
    exact hc
  · rw [if_neg hs] at hc ⊢
    exact hc.1

/-- A segment that runs between the two edges of a triangle that the line crosses. -/
def Spans (m : Mesh α) (level : α) (t : Triangle) (s : Segment α) : Prop :=
  ∃ e e', t.edges.filter (m.crosses level) = [e, e'] ∧
    s = ⟨m.crossingPoint level e, m.crossingPoint level e'⟩

theorem forall₂_spans (m : Mesh α) (level : α) (ts : List Triangle) :
    List.Forall₂ (m.Spans level) (ts.filter (m.Mixed level))
      (ts.filterMap (m.segment? level)) := by
  induction ts with
  | nil => exact .nil
  | cons t ts ih =>
    by_cases hm : m.Mixed level t
    · obtain ⟨e, e', he, hs⟩ := segment?_of_mixed hm
      rw [List.filter_cons_of_pos (by simpa using hm), List.filterMap_cons_some hs]
      exact .cons ⟨e, e', he, rfl⟩ ih
    · rw [List.filter_cons_of_neg (by simpa using hm),
        List.filterMap_cons_none (segment?_of_not_mixed hm)]
      exact ih

/-- The ends of all segments are the points on the crossed edges, one after the other. -/
theorem ends_eq {ts : List Triangle} {ss : List (Segment α)}
    (h : List.Forall₂ (m.Spans level) ts ss) : ss.flatMap (fun s => [s.start, s.stop]) =
      (ts.flatMap fun t => t.edges.filter (m.crosses level)).map (m.crossingPoint level) := by
  induction h with
  | nil => rfl
  | cons hs _ ih =>
    obtain ⟨e, e', he, rfl⟩ := hs
    rw [List.flatMap_cons, List.flatMap_cons, List.map_append, ih, he]
    rfl

theorem exists_joins_of_mem (h : e ∈ m.crossedEdges level) :
    m.crosses level e = true ∧ ∃ t ∈ m.triangles, t.Joins e.1 e.2 := by
  obtain ⟨t, ht, he⟩ := List.mem_flatMap.1 h
  obtain ⟨he, hc⟩ := List.mem_filter.1 he
  exact ⟨hc, t, List.mem_of_mem_filter ht, .inl he⟩

/-- A line of equal height has one segment for each triangle with heights on both sides of the level, in
the order of the triangles, between the points of the two edges on which it crosses them. An edge with
ends on different sides and heights at all corners next to it carries an end of one segment for each of
its triangles: one on the border, two elsewhere. So the line ends only at the border or next to a point
without a height. -/
theorem contour_closed (m : Mesh α) (level : α) :
    List.Forall₂ (m.Spans level) (m.triangles.filter (m.Mixed level)) (m.contour level).segments ∧
    (m.contour level).segments.flatMap (fun s => [s.start, s.stop]) =
      (m.crossedEdges level).map (m.crossingPoint level) ∧
    (∀ u v, m.crosses level (u, v) = true → (∃ t ∈ m.triangles, t.Joins u v) →
      (∀ t ∈ m.triangles, t.Joins u v → m.AllFinite t) →
      (∀ t ∈ m.triangles, t.Joins u v →
        m.Mixed level t ∧ (t.edges.filter (m.crosses level)).countP (Along u v) = 1) ∧
      (m.crossedEdges level).countP (Along u v) = if Grid.OnSide m.resolution u v then 1 else 2) ∧
    ∀ e ∈ m.crossedEdges level, Grid.OnSide m.resolution e.1 e.2 ∨
      (∃ t ∈ m.triangles, t.Joins e.1 e.2 ∧ ¬ m.AllFinite t) ∨
      (m.crossedEdges level).countP (Along e.1 e.2) = 2 := by
  have hspans := forall₂_spans m level m.triangles
  refine ⟨hspans, ends_eq hspans, fun u v h he hf => ⟨fun t ht hj => ?_, ?_⟩, fun e he => ?_⟩
  · refine ⟨⟨hf t ht hj, not_oneSided_of_joins h hj⟩, ?_⟩
    rw [countP_crossed h (Grid.nodup_indices ht), if_pos hj]
  · exact countP_crossedEdges h he hf
  · obtain ⟨h, hex⟩ := exists_joins_of_mem he
    by_cases hf : ∀ t ∈ m.triangles, t.Joins e.1 e.2 → m.AllFinite t
    · have hc := countP_crossedEdges h hex hf
      by_cases hs : Grid.OnSide m.resolution e.1 e.2
      · exact .inl hs
      · rw [if_neg hs] at hc
        exact .inr (.inr hc)
    · push Not at hf
      exact .inr (.inl hf)

/-- On a slope over four cells without a height at its last corner, the line through the lower cells ends at
the border and runs through a diagonal. -/
theorem contour_closed_slope :
    let m : Mesh Float :=
      ⟨2, #[⟨0, 0, 0⟩, ⟨0, 1, 0⟩, ⟨0, 2, 0⟩, ⟨1, 0, 1⟩, ⟨1, 1, 1⟩, ⟨1, 2, 1⟩, ⟨2, 0, 2⟩, ⟨2, 1, 2⟩,
        ⟨2, 2, 0⟩], #[true, true, true, true, true, true, true, true, false], 0, 2⟩
    m.crosses 0.5 (0, 3) = true ∧ m.crosses 0.5 (1, 3) = true ∧
      (m.crossedEdges 0.5).countP (Along 0 3) = 1 ∧ (m.crossedEdges 0.5).countP (Along 1 3) = 2 ∧
      (m.contour 0.5).segments.flatMap (fun s => [s.start, s.stop]) =
        (m.crossedEdges 0.5).map (m.crossingPoint 0.5) := by
  intro m
  obtain ⟨-, hends, hcount, -⟩ := contour_closed m 0.5
  have hborder := (hcount 0 3 (by decide) (by decide) (by decide)).2
  have hinner := (hcount 1 3 (by decide) (by decide) (by decide)).2
  rw [if_pos (by decide)] at hborder
  rw [if_neg (by decide)] at hinner
  exact ⟨by decide, by decide, hborder, hinner, hends⟩

end Relief.Mesh
