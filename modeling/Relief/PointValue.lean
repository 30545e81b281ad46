import Relief.Evaluator
import Relief.Value

/-!
The value of a function at one point. A function without a finite value there is undefined; one that
cannot be asked is an error.
-/
namespace Relief

inductive PointValue where
  | ok (v : Float)
  | undefined (v : Float)
  | error (message : String)

/-- How a caller's own function fails. -/
inductive CallFailure where
  /-- It has no value there, for the reason given. -/
  | undefined (reason : String)
  /-- It fails in a way that nobody expects. -/
  | escaped (kind : String)

/-- What may be evaluated. -/
inductive Target where
  | formula (text : String)
  | evaluator (f : Evaluator)
  | function (f : Float → Float → Except CallFailure Value)

namespace PointValue

def ofFloat (v : Float) : PointValue :=
  if v.isFinite then ok v else undefined v

/-- A coordinate, unless the value is not a number. -/
def coordinate? (v : Value) : Except Crash (Option Float) :=
  match v.toFloat with
  | .ok v => .ok (some v)
  | .error .tooLarge => .error .tooLarge
  | .error _ => .ok none

def ofEvaluator (f : Evaluator) (x y : Float) : Except Crash PointValue :=
  match f.call x y with
  | .ok v => .ok (ofFloat v)
  | .error fault => .error (.fault fault)

def evaluationFailed (reason : String) : PointValue :=
  error ("Evaluation failed: " ++ reason)

def ofTarget (target : Target) (x y : Float) : Except Crash PointValue :=
  match target with
  | .formula text =>
    match Evaluator.build text with
    | .ok f => ofEvaluator f x y
    | .error (.rejected r) => .ok (error r.message)
    | .error (.crashed c) => .error c
  | .evaluator f => ofEvaluator f x y
  | .function f =>
    match f x y with
    | .error (.undefined reason) => .ok (evaluationFailed reason)
    | .error (.escaped kind) => .error (.escaped kind)
    | .ok v =>
      match v.toFloat with
      | .ok v => .ok (ofFloat v)
      | .error e => .ok (evaluationFailed e.message)

def invalidInput : PointValue :=
  error "Invalid input"

/-- The value at a point given by data of any type. -/
def evaluate (target : Target) (x y : Value) : Except Crash PointValue := do
  match ← coordinate? x with
  | none => return invalidInput
  | some px =>
    match ← coordinate? y with
    | none => return invalidInput
    | some py => if px.isNaN || py.isNaN then return invalidInput else ofTarget target px py

/-- Four places for a value, and words for the rest. -/
def text : PointValue → String
  | ok v => Number.fixedText 4 v
  | undefined _ => "Undefined"
  | error _ => "Error"

end PointValue

end Relief
