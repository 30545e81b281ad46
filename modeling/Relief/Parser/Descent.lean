import Relief.Token

/-!
From tokens to trees, one procedure for each nonterminal:

    expression     := additive end
    additive       := multiplicative (("+" | "-") multiplicative)*
    multiplicative := unary (("*" | "/") unary)*
    unary          := ("-" | "+") unary | power
    power          := atom ("^" unary)?
    atom           := NUMBER | VARIABLE | FUNCTION "(" arguments ")" | "(" additive ")"

Every nonterminal costs one level of nesting, and the levels are limited.
-/
namespace Relief.Parser

open Relief.Token

/-- How parsing fails. -/
inductive Fault where
  | grammar (e : GrammarError)
  /-- A token is looked for after the last one. -/
  | pastEnd
  /-- A function is called that is not known. -/
  | unknownFunction (name : String)

abbrev Parse (α : Type) := List Token → Except Fault (α × List Token)

def refuse {α : Type} (e : GrammarError) : Except Fault α :=
  .error (.grammar e)

def expectOpen : List Token → Except Fault (List Token)
  | [] => .error .pastEnd
  | t :: ts =>
    match t.kind with
    | .openParen => .ok ts
    | kind => refuse (.missingOpenParen kind)

def expectClose : List Token → Except Fault (List Token)
  | [] => .error .pastEnd
  | t :: ts =>
    match t.kind with
    | .closeParen => .ok ts
    | kind => refuse (.missingCloseParen kind)

def additiveOp? : Kind → Option String
  | .plus => some "+"
  | .minus => some "-"
  | _ => none

def multiplicativeOp? : Kind → Option String
  | .star => some "*"
  | .slash => some "/"
  | _ => none

/-- Operators of one precedence and their right operands, grouped to the left. The limit is the
number of tokens, so that none is left where it ends. -/
def chain (op? : Kind → Option String) (operand : Parse Expr) :
    (limit : Nat) → Expr → Parse Expr
  | limit + 1, left, t :: ts =>
    match op? t.kind with
    | none => .ok (left, t :: ts)
    | some op => do
      let (right, ts) ← operand ts
      chain op? operand limit (.binary op left right) ts
  | _, _, _ => .error .pastEnd

/-- Further arguments, each after a comma, with the limit of a chain. -/
def commaList (argument : Parse Expr) : (limit : Nat) → Parse (List Expr)
  | limit + 1, t :: ts =>
    match t.kind with
    | .comma => do
      let (arg, ts) ← argument ts
      let (args, ts) ← commaList argument limit ts
      return (arg :: args, ts)
    | _ => .ok ([], t :: ts)
  | _, _ => .error .pastEnd

/-- The arguments of a call, which may be none. -/
def arguments (argument : Parse Expr) : Parse (List Expr)
  | [] => .error .pastEnd
  | t :: ts =>
    match t.kind with
    | .closeParen => .ok ([], t :: ts)
    | _ => do
      let (arg, ts) ← argument (t :: ts)
      let (args, ts) ← commaList argument ts.length ts
      return (arg :: args, ts)

mutual

def additive : (levels : Nat) → Parse Expr
  | 0, _ => refuse .nestedTooDeeply
  | levels + 1, ts => do
    let (left, ts) ← multiplicative levels ts
    chain additiveOp? (multiplicative levels) ts.length left ts

def multiplicative : (levels : Nat) → Parse Expr
  | 0, _ => refuse .nestedTooDeeply
  | levels + 1, ts => do
    let (left, ts) ← unary levels ts
    chain multiplicativeOp? (unary levels) ts.length left ts

def unary : (levels : Nat) → Parse Expr
  | 0, _ => refuse .nestedTooDeeply
  | _ + 1, [] => .error .pastEnd
  | levels + 1, t :: ts =>
    match additiveOp? t.kind with
    | some op => do
      let (operand, ts) ← unary levels ts
      return (.unary op operand, ts)
    | none => power levels (t :: ts)

def power : (levels : Nat) → Parse Expr
  | 0, _ => refuse .nestedTooDeeply
  | levels + 1, ts => do
    let (base, ts) ← atom levels ts
    match ts with
    | [] => .error .pastEnd
    | t :: ts =>
      match t.kind with
      | .caret =>
        let (exponent, ts) ← unary levels ts
        return (.binary "^" base exponent, ts)
      | _ => return (base, t :: ts)

def atom : (levels : Nat) → Parse Expr
  | 0, _ => refuse .nestedTooDeeply
  | _ + 1, [] => .error .pastEnd
  | levels + 1, t :: ts =>
    match t.kind with
    | .number value => .ok (.num value, ts)
    | .var name => .ok (.var name, ts)
    | .func name => functionCall levels name ts
    | .openParen => do
      let (e, ts) ← additive levels ts
      return (e, ← expectClose ts)
    | .finish => refuse .endsUnexpectedly
    | _ => refuse (.unexpectedToken t)

def functionCall : (levels : Nat) → (name : String) → Parse Expr
  | 0, _, _ => refuse .nestedTooDeeply
  | levels + 1, name, ts =>
    match Expr.function? name with
    | none => .error (.unknownFunction name)
    | some f => do
      let ts ← expectOpen ts
      let (args, ts) ← arguments (additive levels) ts
      let ts ← expectClose ts
      if f.accepts args.length then return (.call name args, ts)
      else refuse (.wrongArity f args.length)

end

def expression (levels : Nat) (ts : List Token) : Except Fault Expr := do
  let (e, ts) ← additive levels ts
  match ts with
  | [] => .error .pastEnd
  | t :: _ =>
    match t.kind with
    | .finish => return e
    | _ => refuse (.unexpectedToken t)

/-- The tree of a spelled-out expression that is nested at most so many levels. -/
def parseWithin (levels : Nat) (text : String) : Except Fault Expr := do
  expression levels (← (scan text).mapError .grammar)

end Relief.Parser
