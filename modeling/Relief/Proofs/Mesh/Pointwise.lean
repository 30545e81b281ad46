import Mathlib
import Relief.Mesh.Sample
import Relief.Proofs.Expr.Grid
import Relief.Proofs.Grammar.Tree

/-!
A formula sampled at all points at once has the surface of the function that evaluates the same formula
at one point after the other.
-/
namespace Relief

open Relief.Field (count joinSizes)

/-- How the evaluation of a wrong tree appears to a caller. A wrong argument only means that there is no
value. -/
def Expr.Fault.callFailure : Expr.Fault → CallFailure
  | .unknownOperator _ | .unknownFunction _ => .escaped "KeyError"
  | .wrongArguments reason | .notAnExpression reason => .undefined reason
  | .tooDeep => .escaped "RecursionError"

/-- A formula as a function that does not show that it is one. -/
def Evaluator.function (f : Evaluator) (x y : Float) : Except CallFailure Value :=
  match f.call x y with
  | .ok v => .ok (.float v)
  | .error fault => .error fault.callFailure

namespace Mesh

variable {f : Evaluator} {d : Domain Float} {text : String}

theorem count_grid (d : Domain Float) : count [d.side, d.side] = d.side * d.side := by
  rw [Field.count_cons, Field.count_cons, Field.count_nil, Nat.mul_one]

theorem side_mul_side_pos (d : Domain Float) : 0 < d.side * d.side :=
  Nat.mul_pos d.resolution.succ_pos d.resolution.succ_pos

/-! ### The coordinates of a grid -/

theorem full_gridX (d : Domain Float) : (gridX d).Full :=
  Array.size_ofFn.trans (count_grid d).symm

theorem full_gridY (d : Domain Float) : (gridY d).Full :=
  Array.size_ofFn.trans (count_grid d).symm

theorem joinSizes_grid (d : Domain Float) :
    joinSizes (gridX d).sizes (gridY d).sizes = some [d.side, d.side] := by
  simp only [gridX, gridY, joinSizes, Field.joinSize, true_or, if_true]
  rfl

theorem gridPoint_grid {k : Nat} (hk : k < d.side * d.side) :
    Expr.gridPoint (gridX d) (gridY d) [d.side, d.side] k = ⟨d.xAt (k / d.side), d.yAt (k % d.side)⟩ := by
  have hc : k < count [d.side, d.side] := Nat.lt_of_lt_of_eq hk (count_grid d).symm
  simp only [Expr.gridPoint, Field.read, gridX, gridY, Field.place_self hc, Array.getElem?_ofFn,
    dif_pos hk, Option.getD_some]

/-! ### Surfaces -/

theorem ofOutcomes_values (v : Nat → Float) (ks : List Nat) (d : Domain Float) :
    ofOutcomes (ks.map fun k => .ok (.float (v k))) d =
      .ok (ofHeights d (ks.map fun k => finite? (v k)).toArray) := by
  have hm : (ks.map fun k => Except.ok (.float (v k))).mapM heightOf =
      .ok (ks.map fun k => finite? (v k)) := by
    rw [List.mapM_map]
    exact List.mapM_pure
  rw [ofOutcomes, hm]
  rfl

/-- A function that fails for good at the first point has no surface. -/
theorem ofFunction_escaped {g : Float → Float → Except CallFailure Value} {kind : String}
    (h : ∀ x y, g x y = .error (.escaped kind)) (d : Domain Float) :
    ofFunction g d = .error (.escaped kind) := by
  obtain ⟨n, hn⟩ := Nat.exists_eq_add_of_lt (side_mul_side_pos d)
  rw [ofFunction, hn, ofOutcomes, Nat.zero_add, List.range_succ_eq_map, List.map_cons, List.mapM_cons,
    h, heightOf]
  rfl

theorem ofFn_eq_toArray {α : Type} (v : Nat → α) (n : Nat) :
    (Array.ofFn fun k : Fin n => v k) = ((List.range n).map v).toArray := by
  rw [← List.toArray_ofFn, List.ofFn_eq_map, ← List.map_coe_finRange_eq_range, List.map_map]
  rfl

/-- The surface with the height `v x y` over every point. -/
def ofPoints (v : Float → Float → Float) (d : Domain Float) : Mesh Float :=
  ofHeights d ((List.range (d.side * d.side)).map fun k =>
    finite? (v (d.xAt (k / d.side)) (d.yAt (k % d.side)))).toArray

theorem ofFunction_points {v : Float → Float → Float} (h : ∀ x y, f.call x y = .ok (v x y))
    (d : Domain Float) : ofFunction f.function d = .ok (ofPoints v d) := by
  have hf : f.function = fun x y => .ok (.float (v x y)) := by
    funext x y
    rw [Evaluator.function, h]
  rw [ofFunction, hf, ofOutcomes_values fun k => v (d.xAt (k / d.side)) (d.yAt (k % d.side))]
  rfl

theorem ofEvaluator_points {number : Float → Prop} (h : f.tree.WellFormed number)
    (hd : f.tree.height ≤ Expr.maxDepth) (d : Domain Float) :
    ofEvaluator f d = .ok (ofPoints (fun x y => f.tree.valueAt ⟨x, y⟩) d) := by
  have hz : (Array.ofFn fun k : Fin (count [d.side, d.side]) =>
      f.tree.valueAt (Expr.gridPoint (gridX d) (gridY d) [d.side, d.side] k)).map finite? =
      ((List.range (d.side * d.side)).map fun k =>
        finite? (f.tree.valueAt ⟨d.xAt (k / d.side), d.yAt (k % d.side)⟩)).toArray := by
    rw [ofFn_eq_toArray fun k => f.tree.valueAt (Expr.gridPoint _ _ _ k), count_grid,
      List.map_toArray, List.map_map]
    refine congrArg List.toArray (List.map_congr_left fun k hk => ?_)
    rw [Function.comp_apply, gridPoint_grid (List.mem_range.1 hk)]
  rw [ofEvaluator, Evaluator.callGrid,
    Expr.evalGrid_eq_ok h hd (full_gridX d) (full_gridY d) (joinSizes_grid d), ofPoints, ← hz]
  rfl

end Mesh

/-! ### Formulas -/

section Formula

variable {f : Evaluator} {text : String}

theorem wellFormed_of_parse {t : Expr} (h : Parser.parse text = .ok t) :
    t.WellFormed Grammar.IsUnsigned := by
  have hp : Parser.parseWithin Parser.maxLevels text = .ok t := by
    rw [Grammar.parseWithin_maxLevels, h]
    rfl
  exact Grammar.wellFormed_of_parseWithin hp

/-- A formula whose tree is no higher than a tree may be deep has one surface, whether it is evaluated at
all points at once or at one after the other. Over arrays of coordinates only shapes that do not fit
together are an error, whatever variables it uses, and otherwise there is at every place what a call
with the coordinates there gives. A higher tree is too deep for all of these. -/
theorem Evaluator.callGrid_pointwise (h : Parser.parse text = .ok f.tree) :
    (f.tree.height ≤ Expr.maxDepth →
      (∀ d, ∃ m, Mesh.ofEvaluator f d = .ok m ∧ Mesh.ofFunction f.function d = .ok m) ∧
      (∀ xs ys, joinSizes xs.sizes ys.sizes = none → f.callGrid xs ys = .error .shapes) ∧
      ∀ xs ys whole, xs.Full → ys.Full → joinSizes xs.sizes ys.sizes = some whole →
        ∃ z, f.callGrid xs ys = .ok z ∧ z.sizes = whole ∧ z.Full ∧
          ∀ k < count whole, ∃ v, z.values[k]? = some v ∧
            f.call (xs.read whole k) (ys.read whole k) = .ok v) ∧
    (Expr.maxDepth < f.tree.height →
      (∀ d, Mesh.ofEvaluator f d = .error (.fault .tooDeep) ∧
        Mesh.ofFunction f.function d = .error (.escaped "RecursionError")) ∧
      (∀ x y, f.call x y = .error .tooDeep) ∧
      ∀ xs ys whole, xs.Full → ys.Full → joinSizes xs.sizes ys.sizes = some whole →
        f.callGrid xs ys = .error (.fault .tooDeep)) := by
  have hw := wellFormed_of_parse h
  refine ⟨fun hd => ⟨fun d => ?_, fun xs ys hj => ?_, fun xs ys whole hx hy hj => ?_⟩,
    fun hd => ⟨fun d => ⟨?_, ?_⟩, fun x y => ?_, fun xs ys whole hx hy hj => ?_⟩⟩
  · exact ⟨_, Mesh.ofEvaluator_points hw hd d,
      Mesh.ofFunction_points (fun x y => Expr.eval_eq_ok hw ⟨x, y⟩ hd) d⟩
  · exact Expr.evalGrid_eq_shapes hw hd hj
  · refine ⟨_, Expr.evalGrid_eq_ok hw hd hx hy hj, rfl, Array.size_ofFn, fun k hk => ?_⟩
    refine ⟨_, ?_, Expr.eval_eq_ok hw _ hd⟩
    rw [Array.getElem?_ofFn, dif_pos hk]
    rfl
  · rw [Mesh.ofEvaluator, Evaluator.callGrid, Expr.evalGrid_eq_tooDeep hw hd (Mesh.full_gridX d)
      (Mesh.full_gridY d) (Mesh.joinSizes_grid d)]
    rfl
  · refine Mesh.ofFunction_escaped (fun x y => ?_) d
    rw [Evaluator.function, Evaluator.call, Expr.eval_eq_tooDeep hw ⟨x, y⟩ hd]
    rfl
  · exact Expr.eval_eq_tooDeep hw ⟨x, y⟩ hd
  · exact Expr.evalGrid_eq_tooDeep hw hd hx hy hj

/-- Over a column of two numbers and a row of three, `x*y` is a table of six numbers, and over rows of two
and of three numbers it is an error. -/
theorem Evaluator.callGrid_pointwise_product :
    ∃ f : Evaluator, Parser.parse "x*y" = .ok f.tree ∧
      let column : Field := ⟨[1, 2], #[1.0, 2.0]⟩
      let row : Field := ⟨[3], #[1.0, 2.0, 3.0]⟩
      (∃ m, Mesh.ofEvaluator f .standard = .ok m ∧ Mesh.ofFunction f.function .standard = .ok m) ∧
      f.callGrid ⟨[2], #[1.0, 2.0]⟩ row = .error .shapes ∧
      ∃ z, f.callGrid column row = .ok z ∧ z.sizes = [3, 2] ∧
        ∀ k < 6, ∃ v, z.values[k]? = some v ∧
          f.call (column.read [3, 2] k) (row.read [3, 2] k) = .ok v := by
  have hh : (Parser.parse "x*y").toOption.map Expr.height = some 2 := by
    decide +kernel
  cases h : Parser.parse "x*y" with
  | error e =>
    rw [h] at hh
    cases hh
  | ok t =>
    rw [h] at hh
    let f : Evaluator := ⟨t, "xy", "x*y"⟩
    have hd : f.tree.height ≤ Expr.maxDepth := by
      have ht : t.height = 2 := Option.some.inj hh
      simp [f, ht, Expr.maxDepth]
    obtain ⟨hs, hn, hg⟩ := (Evaluator.callGrid_pointwise h).1 hd
    obtain ⟨z, hz, hsizes, -, hv⟩ := hg ⟨[1, 2], #[1.0, 2.0]⟩ ⟨[3], #[1.0, 2.0, 3.0]⟩ [3, 2] rfl rfl rfl
    exact ⟨f, rfl, hs .standard, hn _ _ rfl, z, hz, hsizes, hv⟩

end Formula

end Relief
