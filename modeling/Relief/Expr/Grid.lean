import Relief.Expr.Eval
import Relief.Field

/-!
The values of a tree at many points at once, given by two arrays of coordinates that fit together.
-/
namespace Relief.Expr

/-- What can go wrong with a tree over arrays. -/
inductive GridFault where
  | fault (f : Fault)
  /-- The shapes do not fit together. -/
  | shapes

def zipFields (op : Float → Float → Float) (f g : Field) : Except GridFault Field :=
  match f.zipWith op g with
  | some h => .ok h
  | none => .error .shapes

/-- A function applied to its arguments place by place. -/
def applyToFields (f : Function) (args : List Field) : Except GridFault Field :=
  match f.rule, args with
  | .elementwise g, [a] => .ok (a.map g)
  | .strict g, [a] => .ok (a.map g)
  | .fold g, a :: rest => rest.foldlM (zipFields g) a
  | _, _ => .error (.fault (.wrongArguments f.name))

mutual

/-- The values of a tree no deeper than `depth`. -/
def evalGridWithin (depth : Nat) : Expr → (xs ys : Field) → Except GridFault Field
  | e, xs, ys =>
    match depth with
    | 0 => .error (.fault .tooDeep)
    | depth + 1 =>
      match e with
      | num value => .ok (Field.scalar value)
      | var name => .ok (if name == "x" then xs else ys)
      | unary op operand => do
        let a ← evalGridWithin depth operand xs ys
        return if op == "-" then a.map (-·) else a
      | binary op left right => do
        let a ← evalGridWithin depth left xs ys
        let b ← evalGridWithin depth right xs ys
        match operator? op with
        | some o => zipFields o.apply a b
        | none => throw (.fault (.unknownOperator op))
      | call name args => do
        let operands ← evalAllGridWithin depth args xs ys
        match function? name with
        | some f => applyToFields f operands
        | none => throw (.fault (.unknownFunction name))
      | foreign text => .error (.fault (.notAnExpression text))

def evalAllGridWithin (depth : Nat) : List Expr → (xs ys : Field) → Except GridFault (List Field)
  | [], _, _ => .ok []
  | arg :: args, xs, ys => do
    let a ← evalGridWithin depth arg xs ys
    let as ← evalAllGridWithin depth args xs ys
    return a :: as

end

/-- The values of a tree at every pair of coordinates, whether or not it uses both. -/
def evalGrid (e : Expr) (xs ys : Field) : Except GridFault Field := do
  let f ← e.evalGridWithin maxDepth xs ys
  match Field.joinSizes xs.sizes ys.sizes with
  | some whole => return f.spread whole
  | none => throw .shapes

end Relief.Expr
