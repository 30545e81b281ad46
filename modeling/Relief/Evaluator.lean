import Relief.Expr.Grid
import Relief.Expr.Print
import Relief.Parser
import Relief.Shorthand

/-!
Formulas ready to be evaluated. One is accepted if its text is an expression and at least one probe
point has a finite value.
-/
namespace Relief

structure Evaluator where
  tree : Expr
  source : String
  /-- The source spelled out. -/
  expanded : String

/-- Why a formula is refused. -/
inductive Rejection where
  | grammar (e : GrammarError)
  | noValidSample

def Rejection.message : Rejection → String
  | grammar e => e.message
  | noValidSample => "Expression produces no valid values"

/-- What stops an operation for good. -/
inductive Crash where
  | foreignSpelling (s : Shorthand.ForeignSpelling)
  | fault (f : Expr.Fault)
  /-- Coordinates that do not fit together. -/
  | shapes
  /-- A number beyond the doubles. -/
  | tooLarge
  /-- An exception of a caller's own function, by its kind. -/
  | escaped (kind : String)

def Crash.ofGridFault : Expr.GridFault → Crash
  | .fault f => .fault f
  | .shapes => .shapes

inductive CompileError where
  | rejected (r : Rejection)
  | crashed (c : Crash)

namespace Evaluator

def call (f : Evaluator) (x y : Float) : Except Expr.Fault Float :=
  f.tree.eval ⟨x, y⟩

def callGrid (f : Evaluator) (xs ys : Field) : Except Expr.GridFault Field :=
  f.tree.evalGrid xs ys

/-- Where a new formula is tried. -/
def probePoints : List (Float × Float) :=
  [(0.0, 0.0), (1.0, 1.0), (-1.0, -1.0), (0.5, 0.5)]

def build (source : String) : Except CompileError Evaluator := do
  match Shorthand.expand source with
  | .error s => throw (.crashed (.foreignSpelling s))
  | .ok expanded =>
    if expanded.isEmpty then throw (.rejected (.grammar .empty))
    match Parser.parse expanded with
    | .error e => throw (.rejected (.grammar e))
    | .ok tree => return { tree, source, expanded }

/-- How many of the points have a finite value. -/
def finiteCount (f : Evaluator) (probes : List (Float × Float)) : Except Expr.Fault Nat :=
  probes.foldlM (fun n (x, y) => do return if (← f.call x y).isFinite then n + 1 else n) 0

/-- A formula with the number of probe points at which it is finite. -/
def compileAt (source : String) (probes : List (Float × Float)) :
    Except CompileError (Evaluator × Nat) := do
  let f ← build source
  match f.finiteCount probes with
  | .error fault => throw (.crashed (.fault fault))
  | .ok 0 => throw (.rejected .noValidSample)
  | .ok n => return (f, n)

def compile (source : String) : Except CompileError Evaluator :=
  (compileAt source probePoints).map (·.1)

end Evaluator

end Relief
