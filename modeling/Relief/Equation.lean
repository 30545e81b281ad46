import Relief.Format.Surface
import Relief.Mesh.Sample

/-!
Equations: formulas that are drawn over a domain.
-/
namespace Relief

structure Equation where
  id : Nat
  expression : String
  color : String
  visible : Bool
  /-- The formula that is drawn, which need not be that of the expression. -/
  evaluator? : Option Evaluator
  mesh? : Option (Mesh Float)
  sampledDomain? : Option (Domain Float)
  /-- Why the expression was refused when it was last looked at. -/
  rejection : Option Rejection

/-- A formula drawn. -/
structure Drawing where
  evaluator : Evaluator
  domain : Domain Float
  mesh : Mesh Float

/-- The surface of a formula over a domain. -/
def Mesh.sample (f : Evaluator) (d : Domain Float) : Except Crash (Mesh Float) :=
  (Mesh.ofEvaluator f d).mapError Crash.ofGridFault

namespace Equation

def isBlank (e : Equation) : Bool :=
  e.expression.toList.all Text.isBlank

/-- Whether the equation is to be drawn with all others. -/
def isShown (e : Equation) : Bool :=
  e.visible && !e.isBlank

/-- What is drawn, if none of its parts is missing. -/
def drawing (e : Equation) : Option Drawing := do
  return ⟨← e.evaluator?, ← e.sampledDomain?, ← e.mesh?⟩

/-- With nothing drawn. -/
def release (e : Equation) : Equation :=
  { e with evaluator? := none, mesh? := none, sampledDomain? := none }

/-- With a formula drawn over a domain. -/
def install (e : Equation) (f : Evaluator) (m : Mesh Float) (d : Domain Float) : Equation :=
  { e.release with
    evaluator? := some f, mesh? := some m, sampledDomain? := some d, rejection := none }

/-- The equation drawn over a domain. A refused expression leaves what is drawn as it was. -/
def redraw (e : Equation) (d : Domain Float) : Except Crash Equation :=
  if e.isBlank then .ok { e.release with rejection := none }
  else
    match Evaluator.compile e.expression with
    | .error (.rejected r) => .ok { e with rejection := some r }
    | .error (.crashed c) => .error c
    | .ok f => (Mesh.sample f d).map fun m => e.install f m d

/-- Whether the equation is drawn over a domain. -/
def isDrawnOver (e : Equation) (d : Domain Float) : Bool :=
  e.sampledDomain?.any (·.same d)

/-- What the equation says at a point: the formula drawn, unless that is not the current one. -/
def target (e : Equation) : Target :=
  match e.evaluator?, e.rejection with
  | some f, none => .evaluator f
  | _, _ => .formula e.expression

/-- The equation as files describe it, if it is drawn. -/
def surface? (e : Equation) : Option Format.Surface :=
  e.mesh?.map fun m => ⟨e.id, e.expression, e.color, m⟩

end Equation

end Relief
