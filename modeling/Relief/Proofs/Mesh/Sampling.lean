import Mathlib
import Relief.Proofs.Evaluator.Compile
import Relief.Proofs.Juxtaposition.Product
import Relief.Proofs.Mesh.Triangulation
import Relief.Proofs.Number.Order

/-!
What a surface keeps of the function from which it was sampled: the finite values as heights, a mark
where there is none, and the range of the heights alone.
-/
namespace Relief.Mesh

open Grid (point)

section Samples

variable {d : Domain Float} {value : Nat → Nat → Option Float}

/-- A finite value over some two lines of the grid. -/
def IsHeight (d : Domain Float) (value : Nat → Nat → Option Float) (z : Float) : Prop :=
  ∃ i ≤ d.resolution, ∃ j ≤ d.resolution, (value i j).filter Float.isFinite = some z

/-- The surface of a function that has the value `value i j`, or none, over the lines `i` and `j`. -/
structure Samples (m : Mesh Float) (d : Domain Float) (value : Nat → Nat → Option Float) : Prop where
  resolution : m.resolution = d.resolution
  size_vertices : m.vertices.size = (d.resolution + 1) ^ 2
  size_finite : m.finite.size = (d.resolution + 1) ^ 2
  length_triangles : m.triangles.length = 2 * d.resolution ^ 2
  vertex : ∀ i ≤ d.resolution, ∀ j ≤ d.resolution, ∃ x y, d.xs[i]? = some x ∧ d.ys[j]? = some y ∧
    m.vertices[i * (d.resolution + 1) + j]? =
      some ⟨x, y, ((value i j).filter Float.isFinite).getD Scalar.zero⟩
  finite : ∀ i ≤ d.resolution, ∀ j ≤ d.resolution,
    m.finite[i * (d.resolution + 1) + j]? = some ((value i j).any Float.isFinite)
  range : ∀ z, IsHeight d value z →
    IsHeight d value m.zMin ∧ IsHeight d value m.zMax ∧ m.zMin ≤ z ∧ z ≤ m.zMax
  flat : (∀ z, ¬IsHeight d value z) → m.zMin = Scalar.zero ∧ m.zMax = Scalar.zero

theorem isFinite_of_isHeight {z : Float} (h : IsHeight d value z) : z.isFinite = true := by
  obtain ⟨_, -, _, -, hz⟩ := h
  exact (Option.filter_eq_some_iff.1 hz).2

theorem bind_finite? (o : Option Float) : o.bind finite? = o.filter Float.isFinite := by
  cases o <;> rfl

def Lists (heights : Array (Option Float)) (d : Domain Float) (value : Nat → Nat → Option Float) : Prop :=
  ∀ i ≤ d.resolution, ∀ j ≤ d.resolution,
    (heights[point d.side i j]?).join = (value i j).filter Float.isFinite

variable {heights : Array (Option Float)} {i j : Nat}

theorem vertex_ofHeights (h : Lists heights d value) (hi : i ≤ d.resolution) (hj : j ≤ d.resolution) :
    (ofHeights d heights).vertices[point d.side i j]? =
      some ⟨d.xAt i, d.yAt j, ((value i j).filter Float.isFinite).getD Scalar.zero⟩ := by
  rw [getElem?_vertices_ofHeights hi hj, h i hi j hj]

theorem finite_ofHeights (h : Lists heights d value) (hi : i ≤ d.resolution) (hj : j ≤ d.resolution) :
    (ofHeights d heights).finite[point d.side i j]? = some ((value i j).any Float.isFinite) := by
  obtain ⟨hk, -, -⟩ := lines_of_point hi hj
  simp only [ofHeights, Array.getElem?_ofFn, dif_pos hk, h i hi j hj]
  cases value i j with
  | none => rfl
  | some v => by_cases hv : v.isFinite <;> simp [Option.filter, hv]

theorem mem_known_iff (h : Lists heights d value) {z : Float} :
    z ∈ (List.range (d.side * d.side)).filterMap (fun k => (heights[k]?).join) ↔
      IsHeight d value z := by
  rw [List.mem_filterMap]
  constructor
  · rintro ⟨k, hk, hz⟩
    obtain ⟨i, hi, j, hj, rfl⟩ := exists_lines hk
    exact ⟨i, hi, j, hj, (h i hi j hj).symm.trans hz⟩
  · rintro ⟨i, hi, j, hj, hz⟩
    obtain ⟨hk, -, -⟩ := lines_of_point hi hj
    exact ⟨point d.side i j, List.mem_range.2 hk, (h i hi j hj).trans hz⟩

theorem range_ofHeights (h : Lists heights d value) {z : Float} (hz : IsHeight d value z) :
    IsHeight d value (ofHeights d heights).zMin ∧ IsHeight d value (ofHeights d heights).zMax ∧
      (ofHeights d heights).zMin ≤ z ∧ z ≤ (ofHeights d heights).zMax := by
  -- Both bounds come from the list of known heights, which has no zeros for the missing ones.
  have hz := (mem_known_iff h).2 hz
  have hne := List.ne_nil_of_mem hz
  have hfinite : ∀ v ∈ (List.range (d.side * d.side)).filterMap (fun k => (heights[k]?).join),
      v.isFinite = true := fun v hv => isFinite_of_isHeight ((mem_known_iff h).1 hv)
  obtain ⟨low, hlow, hmin, hle⟩ := Scalar.ranked_isFinite.least? hfinite hne
  obtain ⟨high, hhigh, hmax, hge⟩ := Scalar.ranked_isFinite.greatest? hfinite hne
  simp only [ofHeights, hmin, hmax, Option.getD_some]
  exact ⟨(mem_known_iff h).1 hlow, (mem_known_iff h).1 hhigh, hle z hz, hge z hz⟩

theorem flat_ofHeights (h : Lists heights d value) (hflat : ∀ z, ¬IsHeight d value z) :
    (ofHeights d heights).zMin = Scalar.zero ∧ (ofHeights d heights).zMax = Scalar.zero := by
  have hnil : (List.range (d.side * d.side)).filterMap (fun k => (heights[k]?).join) = [] :=
    List.eq_nil_iff_forall_not_mem.2 fun z hz => hflat z ((mem_known_iff h).1 hz)
  simp only [ofHeights, hnil]
  exact ⟨rfl, rfl⟩

theorem samples_ofHeights (h : Lists heights d value) : Samples (ofHeights d heights) d value where
  resolution := rfl
  size_vertices := Array.size_ofFn.trans (Nat.pow_two _).symm
  size_finite := Array.size_ofFn.trans (Nat.pow_two _).symm
  length_triangles := Grid.length_triangles d.resolution
  vertex i hi j hj := by
    have hi' : i < d.side := Nat.lt_succ_of_le hi
    have hj' : j < d.side := Nat.lt_succ_of_le hj
    refine ⟨d.xAt i, d.yAt j, ?_, ?_, vertex_ofHeights h hi hj⟩
    · rw [Domain.xs, Array.getElem?_ofFn, dif_pos hi']
    · rw [Domain.ys, Array.getElem?_ofFn, dif_pos hj']
  finite i hi j hj := finite_ofHeights h hi hj
  range z hz := range_ofHeights h hz
  flat hflat := flat_ofHeights h hflat

end Samples

/-! ### Formulas -/

section Formula

variable {f : Evaluator} {number : Float → Prop}

theorem samples_ofPoints (v : Float → Float → Float) (d : Domain Float) :
    Samples (ofPoints v d) d fun i j => some (v (d.xAt i) (d.yAt j)) := by
  refine samples_ofHeights fun i hi j hj => ?_
  obtain ⟨hk, hdiv, hmod⟩ := lines_of_point hi hj
  rw [← bind_finite?, List.getElem?_toArray, List.getElem?_map, List.getElem?_range hk, Option.map_some,
    Option.join_some, hdiv, hmod, Option.bind_some]

theorem ofEvaluator_tooDeep (h : f.tree.WellFormed number) (hd : Expr.maxDepth < f.tree.height)
    (d : Domain Float) : ofEvaluator f d = .error (.fault .tooDeep) := by
  rw [ofEvaluator, Evaluator.callGrid,
    Expr.evalGrid_eq_tooDeep h hd (full_gridX d) (full_gridY d) (joinSizes_grid d)]
  rfl

end Formula

/-! ### Functions -/

/-- The number that a call gives, if it gives one. -/
def number? (outcome : Except CallFailure Value) : Option Float :=
  outcome.toOption.bind fun v => v.toFloat.toOption

section Outcomes

variable {outcome : Except CallFailure Value} {outcomes : List (Except CallFailure Value)}

theorem heightOf_eq_ok (h : ∀ kind, outcome ≠ .error (.escaped kind)) :
    heightOf outcome = .ok ((number? outcome).filter Float.isFinite) := by
  cases outcome with
  | error e =>
    cases e with
    | undefined reason => rfl
    | escaped kind => exact absurd rfl (h kind)
  | ok v =>
    rw [← bind_finite?]
    simp only [heightOf, number?, Except.toOption, Option.bind_some]
    cases v.toFloat <;> rfl

theorem mapM_heightOf (h : ∀ kind, .error (.escaped kind) ∉ outcomes) :
    outcomes.mapM heightOf = .ok (outcomes.map fun o => (number? o).filter Float.isFinite) := by
  induction outcomes with
  | nil => rfl
  | cons o outcomes ih =>
    have ho : ∀ kind, o ≠ .error (.escaped kind) := by
      rintro kind rfl
      exact h kind List.mem_cons_self
    rw [List.mapM_cons, heightOf_eq_ok ho, ih fun kind hk => h kind (List.mem_cons_of_mem o hk)]
    rfl

theorem samples_ofOutcomes {d : Domain Float} {value : Nat → Nat → Option Float}
    (h : ∀ kind, .error (.escaped kind) ∉ outcomes)
    (hv : ∀ i ≤ d.resolution, ∀ j ≤ d.resolution,
      (outcomes[i * (d.resolution + 1) + j]?).bind number? = value i j) :
    ∃ m, ofOutcomes outcomes d = .ok m ∧ Samples m d value := by
  refine ⟨_, by rw [ofOutcomes, mapM_heightOf h]; rfl, samples_ofHeights fun i hi j hj => ?_⟩
  rw [List.getElem?_toArray, List.getElem?_map, ← hv i hi j hj, point, Domain.side]
  cases outcomes[i * (d.resolution + 1) + j]? <;> rfl

theorem samples_ofFunction {d : Domain Float} {g : Float → Float → Except CallFailure Value}
    (h : ∀ i ≤ d.resolution, ∀ j ≤ d.resolution, ∀ kind,
      g (d.xAt i) (d.yAt j) ≠ .error (.escaped kind)) :
    ∃ m, ofFunction g d = .ok m ∧ Samples m d fun i j => number? (g (d.xAt i) (d.yAt j)) := by
  refine samples_ofOutcomes (fun kind hkind => ?_) fun i hi j hj => ?_
  · obtain ⟨k, hk, hg⟩ := List.mem_map.1 hkind
    obtain ⟨i, hi, j, hj, rfl⟩ := exists_lines hk
    obtain ⟨-, hdiv, hmod⟩ := lines_of_point hi hj
    rw [hdiv, hmod] at hg
    exact h i hi j hj kind hg
  · obtain ⟨hk, hdiv, hmod⟩ := lines_of_point hi hj
    change (((List.range _).map _)[point d.side i j]?).bind number? = _
    rw [List.getElem?_map, List.getElem?_range hk, Option.map_some, hdiv, hmod, Option.bind_some]

end Outcomes

/-- The surface of a formula has the values of the formula as heights, and that of any other function
those which a call gives. Only a tree that is too deep to be evaluated has no surface. -/
theorem surface_faithful (d : Domain Float) :
    (∀ f : Evaluator, f.tree.WellFormed (fun _ => True) →
      (f.tree.height ≤ Expr.maxDepth →
        ∃ v : Float → Float → Float, (∀ x y, f.call x y = .ok (v x y)) ∧
          ∃ m, ofEvaluator f d = .ok m ∧ Samples m d fun i j => some (v (d.xAt i) (d.yAt j))) ∧
      (Expr.maxDepth < f.tree.height → ofEvaluator f d = .error (.fault .tooDeep))) ∧
    (∀ g : Float → Float → Except CallFailure Value,
      (∀ i ≤ d.resolution, ∀ j ≤ d.resolution, ∀ kind,
        g (d.xAt i) (d.yAt j) ≠ .error (.escaped kind)) →
      ∃ m, ofFunction g d = .ok m ∧ Samples m d fun i j => number? (g (d.xAt i) (d.yAt j))) ∧
    ∀ outcomes : List (Except CallFailure Value), (∀ kind, .error (.escaped kind) ∉ outcomes) →
      ∃ m, ofOutcomes outcomes d = .ok m ∧
        Samples m d fun i j => (outcomes[i * (d.resolution + 1) + j]?).bind number? := by
  refine ⟨fun f hw => ⟨fun hd => ?_, fun hd => ofEvaluator_tooDeep hw hd d⟩,
    fun g hg => samples_ofFunction hg,
    fun outcomes ho => samples_ofOutcomes ho fun i _ j _ => rfl⟩
  exact ⟨fun x y => f.tree.valueAt ⟨x, y⟩, fun x y => Expr.eval_eq_ok hw ⟨x, y⟩ hd, _,
    ofEvaluator_points hw hd d, samples_ofPoints _ d⟩

def reciprocal (x _ : Float) : Except CallFailure Value :=
  if x == 0 then .error (.undefined "division by zero") else .ok (.float (1 / x))

/-- The function `x`, its reciprocal, a function whose values are of several types, and a product of
five thousand coordinates. -/
theorem surface_faithful_reciprocal :
    (∃ m, ofEvaluator ⟨.var "x", "x", "x"⟩ .standard = .ok m ∧
      Samples m .standard fun i _ => some (Domain.standard.xAt i)) ∧
    (∃ m, ofFunction reciprocal .standard = .ok m ∧
      Samples m .standard fun i j =>
        number? (reciprocal (Domain.standard.xAt i) (Domain.standard.yAt j))) ∧
    (∃ m, ofOutcomes [.ok (.int 2), .ok (.text "nan"), .ok .null] .standard = .ok m ∧
      m.finite[0]? = some true ∧ m.finite[1]? = some false ∧ m.finite[2]? = some false) ∧
    ∃ f : Evaluator, Expr.maxDepth < f.tree.height ∧
      ofEvaluator f .standard = .error (.fault .tooDeep) := by
  obtain ⟨hf, hg, ho⟩ := surface_faithful .standard
  obtain ⟨hx, -⟩ := hf ⟨.var "x", "x", "x"⟩ (.var (by decide))
  obtain ⟨v, hv, m, hm, hxs⟩ := hx (by decide)
  have hvx : v = fun x _ => x := by
    funext x y
    refine Except.ok.inj ((hv x y).symm.trans ?_)
    rw [Evaluator.call, Expr.eval, Expr.evalWithin.eq_def]
    rfl
  rw [hvx] at hxs
  obtain ⟨n, hn, hs⟩ := ho [.ok (.int 2), .ok (.text "nan"), .ok .null] (by simp)
  obtain ⟨f, hb, hh⟩ := Juxtaposition.build_coordinates 4999
  have hw := (Evaluator.wellFormed_of_build hb).mono fun _ _ => trivial
  have hd : Expr.maxDepth < f.tree.height := by
    rw [hh]
    decide
  refine ⟨⟨m, hm, hxs⟩, hg reciprocal fun i _ j _ kind h => ?_, ⟨n, hn, ?_, ?_, ?_⟩, f, hd, (hf f hw).2 hd⟩
  · rw [reciprocal] at h
    split at h <;> cases h
  · exact (hs.finite 0 (by decide) 0 (by decide)).trans (by decide)
  · exact (hs.finite 0 (by decide) 1 (by decide)).trans (by decide)
  · exact (hs.finite 0 (by decide) 2 (by decide)).trans (by decide)

/-- A product of five thousand coordinates is accepted and has no surface. -/
theorem ofEvaluator_coordinates :
    ∃ f, Evaluator.build (String.ofList (List.replicate 5000 'x')) = .ok f ∧
      ∀ d, ofEvaluator f d = .error (.fault .tooDeep) := by
  obtain ⟨f, hb, hh⟩ := Juxtaposition.build_coordinates 4999
  refine ⟨f, hb, fun d => ofEvaluator_tooDeep (Evaluator.wellFormed_of_build hb) ?_ d⟩
  rw [hh]
  decide

end Relief.Mesh
