import Mathlib
import Relief.Mesh.Basic

/-!
The triangles of a grid are an oriented surface without gaps: two triangles that share an edge run
along it in opposite directions, and only the edges of the border belong to a single triangle.
-/
namespace Relief

/-- The edges in the direction in which the triangle runs around them. -/
def Triangle.edges (t : Triangle) : List (Nat × Nat) := [(t.a, t.b), (t.b, t.c), (t.c, t.a)]

/-- Whether an edge of the triangle joins two points, in either direction. -/
def Triangle.Joins (t : Triangle) (u v : Nat) : Prop := (u, v) ∈ t.edges ∨ (v, u) ∈ t.edges

instance (t : Triangle) (u v : Nat) : Decidable (t.Joins u v) :=
  inferInstanceAs (Decidable (_ ∨ _))

namespace Grid

/-- The number of the point over the lines `i` and `j`, on a grid of `n` lines each way. -/
def point (n i j : Nat) : Nat := i * n + j

def lower (n i j : Nat) : Triangle := ⟨point n i j, point n (i + 1) j, point n i (j + 1)⟩

def upper (n i j : Nat) : Triangle :=
  ⟨point n i (j + 1), point n (i + 1) j, point n (i + 1) (j + 1)⟩

/-- Two points on the same side of the border of a grid with `r` cells each way. -/
def OnSide (r u v : Nat) : Prop :=
  (u / (r + 1) = 0 ∧ v / (r + 1) = 0) ∨ (u / (r + 1) = r ∧ v / (r + 1) = r) ∨
    (u % (r + 1) = 0 ∧ v % (r + 1) = 0) ∨ (u % (r + 1) = r ∧ v % (r + 1) = r)

instance (r u v : Nat) : Decidable (OnSide r u v) := inferInstanceAs (Decidable (_ ∨ _))

variable {r n i j i' j' k u v : Nat} {t t' : Triangle}

/-! ### Points -/

theorem point_div (hj : j < n) : point n i j / n = i := by
  rw [point, Nat.add_comm, Nat.add_mul_div_right _ _ (Nat.zero_lt_of_lt hj),
    Nat.div_eq_of_lt hj, Nat.zero_add]

theorem point_mod (hj : j < n) : point n i j % n = j := by
  rw [point, Nat.add_comm, Nat.add_mul_mod_self_right, Nat.mod_eq_of_lt hj]

theorem point_inj (hj : j < n) (hj' : j' < n) :
    point n i j = point n i' j' ↔ i = i' ∧ j = j' := by
  constructor
  · intro h
    have hd := congrArg (· / n) h
    have hm := congrArg (· % n) h
    simp only [point_div hj, point_div hj', point_mod hj, point_mod hj'] at hd hm
    exact ⟨hd, hm⟩
  · rintro ⟨rfl, rfl⟩
    rfl

theorem point_lt (hi : i < n) (hj : j < n) : point n i j < n ^ 2 := by
  have h : (i + 1) * n ≤ n * n := Nat.mul_le_mul_right n hi
  rw [point, Nat.pow_two]
  rw [Nat.succ_mul] at h
  omega

theorem exists_point (h : v < n ^ 2) : ∃ i < n, ∃ j < n, v = point n i j := by
  have hn : 0 < n := Nat.pos_of_ne_zero fun h0 => by simp [h0] at h
  rw [Nat.pow_two] at h
  exact ⟨v / n, Nat.div_lt_of_lt_mul h, v % n, Nat.mod_lt v hn, (Nat.div_add_mod' v n).symm⟩

/-! ### Cells -/

theorem cellTriangles_eq (n i j : Nat) : cellTriangles n i j = [lower n i j, upper n i j] := by
  simp only [cellTriangles, lower, upper, point, Nat.succ_mul, List.cons.injEq, Triangle.mk.injEq,
    and_true, true_and]
  refine ⟨⟨?_, ?_⟩, ?_, ?_, ?_⟩ <;> ring

theorem mem_triangles : t ∈ triangles r ↔
    ∃ i < r, ∃ j < r, t = lower (r + 1) i j ∨ t = upper (r + 1) i j := by
  simp [triangles, cellTriangles_eq]

theorem flatMap_range_mul {α : Type} (f : Nat → Nat → List α) (m n : Nat) :
    (List.range m).flatMap (fun i => (List.range n).flatMap fun j => f i j) =
      (List.range (m * n)).flatMap fun k => f (k / n) (k % n) := by
  induction m with
  | zero => simp
  | succ m ih =>
    rw [List.range_succ, List.flatMap_append, List.flatMap_singleton, ih, Nat.succ_mul,
      List.range_add, List.flatMap_append, List.flatMap_map]
    congr 1
    apply List.flatMap_congr
    intro j hj
    have hj := List.mem_range.1 hj
    have hd : (m * n + j) / n = m := point_div hj
    have hm : (m * n + j) % n = j := point_mod hj
    rw [hd, hm]

theorem triangles_eq (r : Nat) : triangles r =
    (List.range (r * r)).flatMap fun k =>
      [lower (r + 1) (k / r) (k % r), upper (r + 1) (k / r) (k % r)] := by
  rw [triangles, flatMap_range_mul _ r r]
  simp only [cellTriangles_eq]

theorem getElem?_flatMap_pair {α : Type} (f g : Nat → α) (m : Nat) (hk : k < m) :
    ((List.range m).flatMap fun k => [f k, g k])[2 * k]? = some (f k) ∧
      ((List.range m).flatMap fun k => [f k, g k])[2 * k + 1]? = some (g k) := by
  have hl : ∀ m, ((List.range m).flatMap fun k => [f k, g k]).length = 2 * m := by
    intro m
    simp [Nat.mul_comm]
  induction m with
  | zero => exact absurd hk (Nat.not_lt_zero k)
  | succ m ih =>
    rw [List.range_succ, List.flatMap_append, List.flatMap_singleton]
    obtain hk | rfl := Nat.lt_succ_iff_lt_or_eq.1 hk
    · rw [List.getElem?_append_left (by rw [hl]; omega),
        List.getElem?_append_left (by rw [hl]; omega)]
      exact ih hk
    · rw [List.getElem?_append_right (by rw [hl]), List.getElem?_append_right (by rw [hl]; omega),
        hl, Nat.sub_self, Nat.add_sub_cancel_left]
      exact ⟨rfl, rfl⟩

theorem length_triangles (r : Nat) : (triangles r).length = 2 * r ^ 2 := by
  rw [triangles_eq r, Nat.pow_two]
  simp [Nat.mul_comm]

/-! ### Edges -/

variable {p q p' q' : Nat}

theorem mem_edges_lower (hj : j + 1 < n) (hq : q < n) (hq' : q' < n) :
    (point n p q, point n p' q') ∈ (lower n i j).edges ↔
      (p = i ∧ q = j ∧ p' = i + 1 ∧ q' = j) ∨ (p = i + 1 ∧ q = j ∧ p' = i ∧ q' = j + 1) ∨
        (p = i ∧ q = j + 1 ∧ p' = i ∧ q' = j) := by
  have h : j < n := Nat.lt_of_succ_lt hj
  simp only [Triangle.edges, lower, List.mem_cons, Prod.mk.injEq, List.not_mem_nil, or_false,
    point_inj hq h, point_inj hq hj, point_inj hq' h, point_inj hq' hj, and_assoc]

theorem mem_edges_upper (hj : j + 1 < n) (hq : q < n) (hq' : q' < n) :
    (point n p q, point n p' q') ∈ (upper n i j).edges ↔
      (p = i ∧ q = j + 1 ∧ p' = i + 1 ∧ q' = j) ∨ (p = i + 1 ∧ q = j ∧ p' = i + 1 ∧ q' = j + 1) ∨
        (p = i + 1 ∧ q = j + 1 ∧ p' = i ∧ q' = j + 1) := by
  have h : j < n := Nat.lt_of_succ_lt hj
  simp only [Triangle.edges, upper, List.mem_cons, Prod.mk.injEq, List.not_mem_nil, or_false,
    point_inj hq h, point_inj hq hj, point_inj hq' h, point_inj hq' hj, and_assoc]

/-- The edges of all triangles, by the lines at their ends. Of the six steps that an edge can make,
three belong to lower halves and three to upper ones. -/
theorem exists_edge_iff (hq : q < r + 1) (hq' : q' < r + 1) :
    (∃ t ∈ triangles r, (point (r + 1) p q, point (r + 1) p' q') ∈ t.edges) ↔
      p ≤ r ∧ p' ≤ r ∧
        ((p' = p + 1 ∧ q' = q ∧ q < r) ∨ (p = p' + 1 ∧ q' = q + 1) ∨
          (p' = p ∧ q = q' + 1 ∧ p < r) ∨ (p' = p + 1 ∧ q = q' + 1) ∨
          (p' = p ∧ q' = q + 1 ∧ 0 < p) ∨ (p = p' + 1 ∧ q' = q ∧ 0 < q)) := by
  constructor
  · rintro ⟨t, ht, he⟩
    obtain ⟨i, hi, j, hj, rfl | rfl⟩ := mem_triangles.1 ht
    · rw [mem_edges_lower (by omega) hq hq'] at he
      obtain ⟨rfl, rfl, rfl, rfl⟩ | ⟨rfl, rfl, rfl, rfl⟩ | ⟨rfl, rfl, rfl, rfl⟩ := he
      · exact ⟨by omega, by omega, .inl ⟨rfl, rfl, hj⟩⟩
      · exact ⟨by omega, by omega, .inr (.inl ⟨rfl, rfl⟩)⟩
      · exact ⟨by omega, by omega, .inr (.inr (.inl ⟨rfl, rfl, hi⟩))⟩
    · rw [mem_edges_upper (by omega) hq hq'] at he
      obtain ⟨rfl, rfl, rfl, rfl⟩ | ⟨rfl, rfl, rfl, rfl⟩ | ⟨rfl, rfl, rfl, rfl⟩ := he
      · exact ⟨by omega, by omega, .inr (.inr (.inr (.inl ⟨rfl, rfl⟩)))⟩
      · exact ⟨by omega, by omega, .inr (.inr (.inr (.inr (.inl ⟨rfl, rfl, by omega⟩))))⟩
      · exact ⟨by omega, by omega, .inr (.inr (.inr (.inr (.inr ⟨rfl, rfl, by omega⟩))))⟩
  · have hl : ∀ i j, i < r → j < r → lower (r + 1) i j ∈ triangles r := fun i j hi hj =>
      mem_triangles.2 ⟨i, hi, j, hj, .inl rfl⟩
    have hu : ∀ i j, i < r → j < r → upper (r + 1) i j ∈ triangles r := fun i j hi hj =>
      mem_triangles.2 ⟨i, hi, j, hj, .inr rfl⟩
    rintro ⟨hp, hp', h⟩
    rcases h with h | h | h | h | h | h
    · exact ⟨_, hl p q (by omega) h.2.2, (mem_edges_lower (by omega) hq hq').2 (by omega)⟩
    · exact ⟨_, hl p' q (by omega) (by omega), (mem_edges_lower (by omega) hq hq').2 (by omega)⟩
    · exact ⟨_, hl p q' h.2.2 (by omega), (mem_edges_lower (by omega) hq hq').2 (by omega)⟩
    · exact ⟨_, hu p q' (by omega) (by omega), (mem_edges_upper (by omega) hq hq').2 (by omega)⟩
    · exact ⟨_, hu (p - 1) q (by omega) (by omega), (mem_edges_upper (by omega) hq hq').2 (by omega)⟩
    · exact ⟨_, hu p' (q - 1) (by omega) (by omega), (mem_edges_upper (by omega) hq hq').2 (by omega)⟩

/-- No directed edge is in two triangles. -/
theorem eq_of_mem_edges_point (ht : t ∈ triangles r) (ht' : t' ∈ triangles r) (hq : q < r + 1)
    (hq' : q' < r + 1) (h : (point (r + 1) p q, point (r + 1) p' q') ∈ t.edges)
    (h' : (point (r + 1) p q, point (r + 1) p' q') ∈ t'.edges) : t = t' := by
  obtain ⟨i, hi, j, hj, rfl | rfl⟩ := mem_triangles.1 ht <;>
    obtain ⟨i', hi', j', hj', rfl | rfl⟩ := mem_triangles.1 ht'
  · rw [mem_edges_lower (by omega) hq hq'] at h h'
    obtain ⟨rfl, rfl⟩ : i = i' ∧ j = j' := by omega
    rfl
  · rw [mem_edges_lower (by omega) hq hq'] at h
    rw [mem_edges_upper (by omega) hq hq'] at h'
    omega
  · rw [mem_edges_upper (by omega) hq hq'] at h
    rw [mem_edges_lower (by omega) hq hq'] at h'
    omega
  · rw [mem_edges_upper (by omega) hq hq'] at h h'
    obtain ⟨rfl, rfl⟩ : i = i' ∧ j = j' := by omega
    rfl

theorem exists_ends (ht : t ∈ triangles r) (he : (u, v) ∈ t.edges) :
    ∃ p q p' q', p ≤ r ∧ q ≤ r ∧ p' ≤ r ∧ q' ≤ r ∧
      u = point (r + 1) p q ∧ v = point (r + 1) p' q' := by
  obtain ⟨i, hi, j, hj, rfl | rfl⟩ := mem_triangles.1 ht
  · simp only [Triangle.edges, lower, List.mem_cons, Prod.mk.injEq, List.not_mem_nil, or_false] at he
    obtain ⟨rfl, rfl⟩ | ⟨rfl, rfl⟩ | ⟨rfl, rfl⟩ := he
    all_goals exact ⟨_, _, _, _, by omega, by omega, by omega, by omega, rfl, rfl⟩
  · simp only [Triangle.edges, upper, List.mem_cons, Prod.mk.injEq, List.not_mem_nil, or_false] at he
    obtain ⟨rfl, rfl⟩ | ⟨rfl, rfl⟩ | ⟨rfl, rfl⟩ := he
    all_goals exact ⟨_, _, _, _, by omega, by omega, by omega, by omega, rfl, rfl⟩

/-- An edge is run along in the other direction too, unless it lies on the border. -/
theorem exists_reverse_iff (ht : t ∈ triangles r) (he : (u, v) ∈ t.edges) :
    (∃ t ∈ triangles r, (v, u) ∈ t.edges) ↔ ¬ OnSide r u v := by
  obtain ⟨p, q, p', q', hp, hq, hp', hq', rfl, rfl⟩ := exists_ends ht he
  have hq : q < r + 1 := Nat.lt_succ_of_le hq
  have hq' : q' < r + 1 := Nat.lt_succ_of_le hq'
  obtain ⟨-, -, h⟩ := (exists_edge_iff hq hq').1 ⟨t, ht, he⟩
  rw [exists_edge_iff hq' hq, OnSide, point_div hq, point_div hq', point_mod hq, point_mod hq']
  rcases h with h | h | h | h | h | h
  all_goals omega

/-! ### How many triangles share an edge -/

/-- A triangle belongs to one cell only. -/
theorem cell_inj (hj : j + 1 < n) (hj' : j' + 1 < n) (h : t ∈ cellTriangles n i j)
    (h' : t ∈ cellTriangles n i' j') : i = i' ∧ j = j' := by
  have hl : j < n := Nat.lt_of_succ_lt hj
  have hl' : j' < n := Nat.lt_of_succ_lt hj'
  rw [cellTriangles_eq, List.mem_pair] at h h'
  obtain rfl | rfl := h <;> obtain h' | h' := h' <;>
    simp only [lower, upper, Triangle.mk.injEq, point_inj hl hl', point_inj hj hj',
      point_inj hl hj', point_inj hj hl'] at h' <;> omega

theorem nodup_triangles (r : Nat) : (triangles r).Nodup := by
  have hcell : ∀ i j, (cellTriangles (r + 1) i j).Nodup := by
    intro i j
    simp [cellTriangles]
  rw [triangles, List.nodup_flatMap]
  constructor
  · intro i _
    rw [List.nodup_flatMap]
    refine ⟨fun j _ => hcell i j, List.pairwise_iff_getElem.2 fun j j' hj hj' hlt t ht ht' => ?_⟩
    rw [List.getElem_range] at ht ht'
    rw [List.length_range] at hj hj'
    have := (cell_inj (by omega) (by omega) ht ht').2
    omega
  · refine List.pairwise_iff_getElem.2 fun i i' hi hi' hlt t ht ht' => ?_
    rw [List.getElem_range] at ht ht'
    obtain ⟨j, hj, ht⟩ := List.mem_flatMap.1 ht
    obtain ⟨j', hj', ht'⟩ := List.mem_flatMap.1 ht'
    rw [List.mem_range] at hj hj'
    have := (cell_inj (by omega) (by omega) ht ht').1
    omega

theorem eq_of_mem_edges (ht : t ∈ triangles r) (ht' : t' ∈ triangles r) (h : (u, v) ∈ t.edges)
    (h' : (u, v) ∈ t'.edges) : t = t' := by
  obtain ⟨p, q, p', q', -, hq, -, hq', rfl, rfl⟩ := exists_ends ht h
  exact eq_of_mem_edges_point ht ht' (Nat.lt_succ_of_le hq) (Nat.lt_succ_of_le hq') h h'

/-- No triangle runs along an edge in both directions. -/
theorem ne_of_reverse (ht : t ∈ triangles r) (h : (u, v) ∈ t.edges) (h' : (v, u) ∈ t'.edges) :
    t ≠ t' := by
  rintro rfl
  obtain ⟨p, q, p', q', -, hq, -, hq', rfl, rfl⟩ := exists_ends ht h
  have hq : q < r + 1 := Nat.lt_succ_of_le hq
  have hq' : q' < r + 1 := Nat.lt_succ_of_le hq'
  obtain ⟨i, -, j, hj, rfl | rfl⟩ := mem_triangles.1 ht
  · rw [mem_edges_lower (by omega) hq hq'] at h
    rw [mem_edges_lower (by omega) hq' hq] at h'
    omega
  · rw [mem_edges_upper (by omega) hq hq'] at h
    rw [mem_edges_upper (by omega) hq' hq] at h'
    omega

section Counting

variable {P : Triangle → Prop} [DecidablePred P]

theorem countP_le_one (h : ∀ t ∈ triangles r, ∀ t' ∈ triangles r, P t → P t' → t = t') :
    (triangles r).countP P ≤ 1 := by
  rw [← (nodup_triangles r).card_eq_countP, Finset.card_le_one]
  intro t ht t' ht'
  rw [Finset.mem_filter, List.mem_toFinset] at ht ht'
  exact h t ht.1 t' ht'.1 ht.2 ht'.2

theorem countP_eq_one (ht : t ∈ triangles r) (h : ∀ t' ∈ triangles r, P t' ↔ t' = t) :
    (triangles r).countP P = 1 := by
  rw [← (nodup_triangles r).card_eq_countP, Finset.card_eq_one]
  refine ⟨t, Finset.ext fun t' => ?_⟩
  rw [Finset.mem_filter, List.mem_toFinset, Finset.mem_singleton]
  constructor
  · rintro ⟨ht', hp⟩
    exact (h t' ht').1 hp
  · rintro rfl
    exact ⟨ht, (h t' ht).2 rfl⟩

theorem countP_eq_two (ht : t ∈ triangles r) (ht' : t' ∈ triangles r) (hne : t ≠ t')
    (h : ∀ s ∈ triangles r, P s ↔ s = t ∨ s = t') : (triangles r).countP P = 2 := by
  rw [← (nodup_triangles r).card_eq_countP, Finset.card_eq_two]
  refine ⟨t, t', hne, Finset.ext fun s => ?_⟩
  rw [Finset.mem_filter, List.mem_toFinset, Finset.mem_insert, Finset.mem_singleton]
  constructor
  · rintro ⟨hs, hp⟩
    exact (h s hs).1 hp
  · rintro (rfl | rfl)
    · exact ⟨ht, (h s ht).2 (.inl rfl)⟩
    · exact ⟨ht', (h s ht').2 (.inr rfl)⟩

end Counting

theorem countP_edge (ht : t ∈ triangles r) (h : (u, v) ∈ t.edges) :
    (triangles r).countP (fun t => (u, v) ∈ t.edges) = 1 :=
  countP_eq_one ht fun _ ht' =>
    ⟨fun h' => eq_of_mem_edges ht' ht h' h, fun he => he ▸ h⟩

/-- An edge of the border belongs to one triangle, any other to two that run along it in opposite
directions. -/
theorem countP_joins (ht : t ∈ triangles r) (h : (u, v) ∈ t.edges) :
    if OnSide r u v then (triangles r).countP (·.Joins u v) = 1
    else (triangles r).countP (·.Joins u v) = 2 ∧
      (triangles r).countP (fun t => (u, v) ∈ t.edges) = 1 ∧
      (triangles r).countP (fun t => (v, u) ∈ t.edges) = 1 := by
  have hr := exists_reverse_iff ht h
  split
  · next hs =>
    refine countP_eq_one ht fun t' ht' => ⟨?_, fun he => .inl (he ▸ h)⟩
    rintro (h' | h')
    · exact eq_of_mem_edges ht' ht h' h
    · exact absurd hs (hr.1 ⟨t', ht', h'⟩)
  · next hs =>
    obtain ⟨t', ht', h'⟩ := hr.2 hs
    refine ⟨countP_eq_two ht ht' (ne_of_reverse ht h h') fun s hm => ⟨?_, ?_⟩, countP_edge ht h,
      countP_edge ht' h'⟩
    · rintro (hj | hj)
      · exact .inl (eq_of_mem_edges hm ht hj h)
      · exact .inr (eq_of_mem_edges hm ht' hj h')
    · rintro (rfl | rfl)
      · exact .inl h
      · exact .inr h'

theorem onSide_comm : OnSide r u v ↔ OnSide r v u := by
  simp only [OnSide, and_comm]

theorem countP_joins_of_exists (h : ∃ t ∈ triangles r, t.Joins u v) :
    if OnSide r u v then (triangles r).countP (·.Joins u v) = 1
    else (triangles r).countP (·.Joins u v) = 2 ∧
      (triangles r).countP (fun t => (u, v) ∈ t.edges) = 1 ∧
      (triangles r).countP (fun t => (v, u) ∈ t.edges) = 1 := by
  obtain ⟨t, ht, h | h⟩ := h
  · exact countP_joins ht h
  · have hj := countP_joins ht h
    have he : ∀ t : Triangle, t.Joins v u ↔ t.Joins u v := fun t => Or.comm
    simp only [onSide_comm (u := v), he] at hj
    split at hj
    · next hs => rwa [if_pos hs]
    · next hs => exact if_neg hs ▸ ⟨hj.1, hj.2.2, hj.2.1⟩

/-- The two triangles on the sides of an edge off the border. -/
theorem exists_neighbours (h : ∃ t ∈ triangles r, t.Joins u v) (hs : ¬ OnSide r u v) :
    ∃ t ∈ triangles r, ∃ t' ∈ triangles r, t ≠ t' ∧ (u, v) ∈ t.edges ∧ (v, u) ∈ t'.edges ∧
      ∀ s ∈ triangles r, s.Joins u v → s = t ∨ s = t' := by
  have hc := countP_joins_of_exists h
  rw [if_neg hs] at hc
  obtain ⟨-, hforth, hback⟩ := hc
  obtain ⟨t, ht, he⟩ := List.countP_pos_iff.1 (hforth ▸ Nat.one_pos)
  obtain ⟨t', ht', he'⟩ := List.countP_pos_iff.1 (hback ▸ Nat.one_pos)
  have he := of_decide_eq_true he
  have he' := of_decide_eq_true he'
  refine ⟨t, ht, t', ht', ne_of_reverse ht he he', he, he', fun s hsm hj => ?_⟩
  obtain hj | hj := hj
  · exact .inl (eq_of_mem_edges hsm ht hj he)
  · exact .inr (eq_of_mem_edges hsm ht' hj he')

/-! ### Vertices -/

theorem indices_lt (ht : t ∈ triangles r) : ∀ v ∈ t.indices, v < (r + 1) ^ 2 := by
  obtain ⟨i, hi, j, hj, rfl | rfl⟩ := mem_triangles.1 ht
  all_goals
    simp only [Triangle.indices, lower, upper, List.forall_mem_cons]
    exact ⟨point_lt (by omega) (by omega), point_lt (by omega) (by omega),
      point_lt (by omega) (by omega), fun _ h => absurd h List.not_mem_nil⟩

theorem nodup_indices (ht : t ∈ triangles r) : t.indices.Nodup := by
  obtain ⟨i, hi, j, hj, rfl | rfl⟩ := mem_triangles.1 ht
  all_goals
    have hl : j < r + 1 := by omega
    have hu : j + 1 < r + 1 := by omega
    simp [Triangle.indices, lower, upper, point_inj hl hu, point_inj hu hl, point_inj hl hl,
      point_inj hu hu]

/-- Every point is a corner of one of the cells around it. -/
theorem exists_mem_indices (hr : 1 ≤ r) (hv : v < (r + 1) ^ 2) : ∃ t ∈ triangles r, v ∈ t.indices := by
  obtain ⟨i, hi, j, hj, rfl⟩ := exists_point hv
  by_cases hil : i < r
  · by_cases hjl : j < r
    · exact ⟨_, mem_triangles.2 ⟨i, hil, j, hjl, .inl rfl⟩, by simp [Triangle.indices, lower]⟩
    · obtain ⟨j, rfl⟩ : ∃ j', j = j' + 1 := ⟨j - 1, by omega⟩
      exact ⟨_, mem_triangles.2 ⟨i, hil, j, by omega, .inl rfl⟩, by simp [Triangle.indices, lower]⟩
  · obtain ⟨i, rfl⟩ : ∃ i', i = i' + 1 := ⟨i - 1, by omega⟩
    by_cases hjl : j < r
    · exact ⟨_, mem_triangles.2 ⟨i, by omega, j, hjl, .inr rfl⟩, by simp [Triangle.indices, upper]⟩
    · obtain ⟨j, rfl⟩ : ∃ j', j = j' + 1 := ⟨j - 1, by omega⟩
      exact ⟨_, mem_triangles.2 ⟨i, by omega, j, by omega, .inr rfl⟩,
        by simp [Triangle.indices, upper]⟩

theorem getElem?_triangles (hk : k < r ^ 2) :
    [(triangles r)[2 * k]?, (triangles r)[2 * k + 1]?] =
      (cellTriangles (r + 1) (k / r) (k % r)).map some := by
  rw [Nat.pow_two] at hk
  rw [triangles_eq, cellTriangles_eq, (getElem?_flatMap_pair _ _ _ hk).1,
    (getElem?_flatMap_pair _ _ _ hk).2]
  rfl

/-- The triangles of a grid cover it as one oriented surface: two for each cell, in the order of the
cells, with three different vertices each, whose numbers fit in 32 bits if that of the vertices does.
Every vertex is used. No two triangles run along an edge in the same direction, and every edge belongs
to two that run in opposite directions, or to one if it lies on the border. -/
theorem triangles_oriented (r : Nat) (hr : 1 ≤ r) (hw : (r + 1) ^ 2 ≤ 2 ^ 32) :
    (triangles r).length = 2 * r ^ 2 ∧
    (∀ t ∈ triangles r, t.indices.Nodup ∧
      ∀ v ∈ t.indices, v < (r + 1) ^ 2 ∧ (UInt32.ofNat v).toNat = v) ∧
    (∀ v < (r + 1) ^ 2, ∃ t ∈ triangles r, v ∈ t.indices) ∧
    (∀ k < r ^ 2, [(triangles r)[2 * k]?, (triangles r)[2 * k + 1]?] =
      (cellTriangles (r + 1) (k / r) (k % r)).map some) ∧
    (∀ u v, (triangles r).countP (fun t => (u, v) ∈ t.edges) ≤ 1) ∧
    ∀ u v, (∃ t ∈ triangles r, t.Joins u v) →
      if OnSide r u v then (triangles r).countP (·.Joins u v) = 1
      else (triangles r).countP (·.Joins u v) = 2 ∧
        (triangles r).countP (fun t => (u, v) ∈ t.edges) = 1 ∧
        (triangles r).countP (fun t => (v, u) ∈ t.edges) = 1 := by
  refine ⟨length_triangles r, fun t ht => ⟨nodup_indices ht, fun v hv => ?_⟩,
    fun v hv => exists_mem_indices hr hv, fun k hk => getElem?_triangles hk, fun u v => ?_,
    fun u v h => countP_joins_of_exists h⟩
  · have hlt := indices_lt ht v hv
    refine ⟨hlt, ?_⟩
    rw [UInt32.toNat_ofNat', Nat.mod_eq_of_lt (Nat.lt_of_lt_of_le hlt hw)]
  · exact countP_le_one fun t ht t' ht' h h' => eq_of_mem_edges ht ht' h h'

/-- The diagonal of the first of four cells, and the edge to its left. -/
theorem triangles_oriented_two :
    (1 ≤ 2 ∧ (2 + 1) ^ 2 ≤ 2 ^ 32) ∧ (triangles 2).length = 8 ∧
      (triangles 2).countP (·.Joins 1 3) = 2 ∧ (triangles 2).countP (·.Joins 0 3) = 1 := by
  have h := triangles_oriented 2 (by decide) (by decide)
  obtain ⟨hl, -, -, -, -, hj⟩ := h
  refine ⟨by decide, hl, ?_, ?_⟩
  · have hd := hj 1 3 ⟨⟨0, 3, 1⟩, by decide, by decide⟩
    rw [if_neg (by decide)] at hd
    exact hd.1
  · have hs := hj 0 3 ⟨⟨0, 3, 1⟩, by decide, by decide⟩
    rwa [if_pos (by decide)] at hs

end Grid

/-! ### The points over a grid -/

namespace Mesh

open Grid (point)

variable {α : Type} [Scalar α] {d : Domain α} {heights : Array (Option α)} {i j : Nat}

theorem lines_of_point (hi : i ≤ d.resolution) (hj : j ≤ d.resolution) :
    point d.side i j < d.side * d.side ∧ point d.side i j / d.side = i ∧
      point d.side i j % d.side = j := by
  have hi : i < d.side := Nat.lt_succ_of_le hi
  have hj : j < d.side := Nat.lt_succ_of_le hj
  exact ⟨Nat.pow_two d.side ▸ Grid.point_lt hi hj, Grid.point_div hj, Grid.point_mod hj⟩

theorem exists_lines {k : Nat} (hk : k ∈ List.range (d.side * d.side)) :
    ∃ i ≤ d.resolution, ∃ j ≤ d.resolution, k = point d.side i j := by
  rw [List.mem_range, ← Nat.pow_two] at hk
  obtain ⟨i, hi, j, hj, h⟩ := Grid.exists_point hk
  exact ⟨i, Nat.le_of_lt_succ hi, j, Nat.le_of_lt_succ hj, h⟩

theorem getElem?_vertices_ofHeights (hi : i ≤ d.resolution) (hj : j ≤ d.resolution) :
    (ofHeights d heights).vertices[point d.side i j]? =
      some ⟨d.xAt i, d.yAt j, ((heights[point d.side i j]?).join).getD Scalar.zero⟩ := by
  obtain ⟨hk, hdiv, hmod⟩ := lines_of_point hi hj
  simp only [ofHeights, Array.getElem?_ofFn, dif_pos hk, hdiv, hmod]

end Mesh

end Relief
