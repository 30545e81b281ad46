import Relief.Expr.Basic
import Relief.Number.Layout

/-!
The text of a tree, with the parentheses that its operators need and no others.
-/
namespace Relief.Expr

open Relief.Number

/-- Whole numbers from here on are written as doubles. -/
def wholeLimit : Float := 1e16

/-- A number, by name if it has one, and without a fraction if it is whole. -/
def numText (v : Float) : String :=
  match constants.find? (·.2 == v) with
  | some (name, _) => name
  | none =>
    if (Binary64.ofFloat v).isWhole && v.abs < wholeLimit then
      { general with wholeMark := "", signedZero := false }.print v
    else generalText v

def parenthesized (text : String) : String :=
  "(" ++ text ++ ")"

def precedence? : Expr → Option Nat
  | binary op _ _ => (operator? op).map (·.precedence)
  | _ => none

/-- Whether an operand of an operator of the given precedence has to be parenthesized. At the same
precedence this depends on the side. -/
def needsParens (operand : Expr) (precedence : Nat) (tightSide : Bool) : Bool :=
  match operand with
  | unary _ _ => 4 ≤ precedence
  | binary op _ _ =>
    match operator? op with
    | some o => o.precedence < precedence || (o.precedence == precedence && tightSide)
    | none => false
  | _ => false

def operandText (operand : Expr) (text : String) (precedence : Nat) (tightSide : Bool) : String :=
  if needsParens operand precedence tightSide then parenthesized text else text

def joinBinary (op : String) (left right : String) : String :=
  if op == "^" then left ++ "^" ++ right else left ++ " " ++ op ++ " " ++ right

mutual

/-- The text of a tree no deeper than `depth`, where a call counts twice. -/
def textWithin (depth : Nat) : Expr → Except Fault String
  | e =>
    match depth with
    | 0 => .error .tooDeep
    | depth + 1 =>
      match e with
      | num value => .ok (numText value)
      | var name => .ok name
      | unary op operand => do
        let inner ← textWithin depth operand
        let loose := (precedence? operand).any (· < 4)
        return op ++ if loose then parenthesized inner else inner
      | binary op left right => do
        match operator? op with
        | none => throw (.unknownOperator op)
        | some o =>
          let leftText ← textWithin depth left
          let rightText ← textWithin depth right
          return joinBinary op (operandText left leftText o.precedence (op == "^"))
            (operandText right rightText o.precedence (op != "^"))
      | call function args => do
        let texts ← textsWithin (depth - 1) args
        return function ++ parenthesized (String.intercalate ", " texts)
      | foreign text => .error (.notAnExpression text)

def textsWithin (depth : Nat) : List Expr → Except Fault (List String)
  | [] => .ok []
  | arg :: args => do
    let text ← textWithin depth arg
    let texts ← textsWithin depth args
    return text :: texts

end

def text (e : Expr) : Except Fault String :=
  e.textWithin maxDepth

end Relief.Expr
