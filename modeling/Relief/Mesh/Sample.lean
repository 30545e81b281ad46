import Relief.Mesh.Basic
import Relief.PointValue

/-!
Surfaces of functions. A formula is evaluated at all points at once, any other function point by point.
-/
namespace Relief.Mesh

/-- A height that can be drawn. -/
def finite? (v : Float) : Option Float :=
  if v.isFinite then some v else none

/-- The coordinates of every point of the grid. -/
def gridX (d : Domain Float) : Field :=
  ⟨[d.side, d.side], Array.ofFn fun k : Fin (d.side * d.side) => d.xAt (k / d.side)⟩

def gridY (d : Domain Float) : Field :=
  ⟨[d.side, d.side], Array.ofFn fun k : Fin (d.side * d.side) => d.yAt (k % d.side)⟩

/-- The surface of a formula. -/
def ofEvaluator (f : Evaluator) (d : Domain Float) : Except Expr.GridFault (Mesh Float) := do
  let z ← f.callGrid (gridX d) (gridY d)
  return ofHeights d (z.values.map finite?)

/-- The height of a value, unless the function fails for good. What is no number has no height. -/
def heightOf (outcome : Except CallFailure Value) : Except Crash (Option Float) :=
  match outcome with
  | .error (.escaped kind) => .error (.escaped kind)
  | .error (.undefined _) => .ok none
  | .ok v =>
    match v.toFloat with
    | .ok v => .ok (finite? v)
    | .error _ => .ok none

/-- The surface of a function that was called at every vertex in turn. -/
def ofOutcomes (outcomes : List (Except CallFailure Value)) (d : Domain Float) :
    Except Crash (Mesh Float) := do
  let heights ← outcomes.mapM heightOf
  return ofHeights d heights.toArray

/-- The surface of a function. -/
def ofFunction (f : Float → Float → Except CallFailure Value) (d : Domain Float) :
    Except Crash (Mesh Float) :=
  ofOutcomes ((List.range (d.side * d.side)).map fun k =>
    f (d.xAt (k / d.side)) (d.yAt (k % d.side))) d

end Relief.Mesh
