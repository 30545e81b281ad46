import Relief.Expr.Basic

/-!
The value of a tree at a point. Arithmetic follows the doubles: nothing is an error but a tree that
is wrong or too deep.
-/
namespace Relief

structure Point where
  x : Float
  y : Float

namespace Expr

/-- What an operand stands for. A coordinate is read where it is used, because a function with a
second argument stores its result there. -/
inductive Operand where
  | value (v : Float)
  | x
  | y

def Operand.read (p : Point) : Operand → Float
  | value v => v
  | x => p.x
  | y => p.y

/-- Stores a number where an operand stands, if it is a coordinate. -/
def Operand.store (p : Point) (v : Float) : Operand → Option Point
  | value _ => none
  | x => some { p with x := v }
  | y => some { p with y := v }

/-- The coordinate of a name: every name but `x` is that of `y`. -/
def Operand.ofName (name : String) : Operand :=
  if name == "x" then x else y

def negateIf (op : String) (p : Point) (operand : Operand) : Operand :=
  if op == "-" then .value (-(operand.read p)) else operand

/-- A function applied to its arguments. -/
def applyFunction (f : Function) (args : List Operand) (p : Point) :
    Except Fault (Operand × Point) :=
  match f.rule, args with
  | .elementwise g, [a] => .ok (.value (g (a.read p)), p)
  | .elementwise g, [a, target] =>
    match target.store p (g (a.read p)) with
    | some p => .ok (target, p)
    | none => .error (.wrongArguments f.name)
  | .strict g, [a] => .ok (.value (g (a.read p)), p)
  | .fold _, [a] => .ok (a, p)
  | .fold g, a :: b :: rest =>
    .ok (.value ((b :: rest).foldl (fun v o => g v (o.read p)) (a.read p)), p)
  | _, _ => .error (.wrongArguments f.name)

mutual

/-- The operand that a tree no deeper than `depth` becomes, and the point afterwards. -/
def evalWithin (depth : Nat) : Expr → Point → Except Fault (Operand × Point)
  | e, p =>
    match depth with
    | 0 => .error .tooDeep
    | depth + 1 =>
      match e with
      | num value => .ok (.value value, p)
      | var name => .ok (Operand.ofName name, p)
      | unary op operand => do
        let (a, p) ← evalWithin depth operand p
        return (negateIf op p a, p)
      | binary op left right => do
        let (a, p) ← evalWithin depth left p
        let (b, p) ← evalWithin depth right p
        match operator? op with
        | some o => return (.value (o.apply (a.read p) (b.read p)), p)
        | none => throw (.unknownOperator op)
      | call name args => do
        let (operands, p) ← evalAllWithin depth args p
        match function? name with
        | some f => applyFunction f operands p
        | none => throw (.unknownFunction name)
      | foreign text => .error (.notAnExpression text)

def evalAllWithin (depth : Nat) : List Expr → Point → Except Fault (List Operand × Point)
  | [], p => .ok ([], p)
  | arg :: args, p => do
    let (a, p) ← evalWithin depth arg p
    let (as, p) ← evalAllWithin depth args p
    return (a :: as, p)

end

/-- The value of a tree at a point. -/
def eval (e : Expr) (p : Point) : Except Fault Float := do
  let (a, p) ← e.evalWithin maxDepth p
  return a.read p

end Expr

end Relief
