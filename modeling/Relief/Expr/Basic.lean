import Relief.Number.Binary64

/-!
Expressions in the two coordinates `x` and `y`, and the functions, operators and constants that
they may use. The names in a tree are free, so that a tree may also be wrong.
-/
namespace Relief

inductive Expr where
  | num (value : Float)
  | var (name : String)
  | unary (op : String) (operand : Expr)
  | binary (op : String) (left right : Expr)
  | call (function : String) (args : List Expr)
  /-- Something that stands where an expression should. -/
  | foreign (text : String)
  deriving Inhabited

namespace Expr

/-- What can go wrong with a tree. -/
inductive Fault where
  | unknownOperator (op : String)
  | unknownFunction (name : String)
  | wrongArguments (name : String)
  | notAnExpression (text : String)
  | tooDeep
  deriving DecidableEq, Repr

/-- A tree is walked at most this deep. -/
def maxDepth : Nat := 1000

/-- What a function does with its arguments. -/
inductive Rule where
  /-- One argument, and possibly a coordinate that takes the result. -/
  | elementwise (f : Float → Float)
  /-- One argument and nothing else. -/
  | strict (f : Float → Float)
  /-- One or more arguments, from left to right. -/
  | fold (f : Float → Float → Float)

structure Function where
  name : String
  rule : Rule

namespace Function

def minArgs (_ : Function) : Nat := 1

/-- No limit for a function that folds. -/
def maxArgs (f : Function) : Option Nat :=
  match f.rule with
  | .fold _ => none
  | _ => some 1

def accepts (f : Function) (n : Nat) : Bool :=
  f.minArgs ≤ n && f.maxArgs.all (n ≤ ·)

end Function

/-- The greater of two, NaN if either is. -/
def maximum (a b : Float) : Float :=
  if a ≥ b || a.isNaN then a else b

/-- The lesser of two, NaN if either is. -/
def minimum (a b : Float) : Float :=
  if a ≤ b || a.isNaN then a else b

/-- To the nearest whole number, halves upward. -/
def roundHalfUp (v : Float) : Float :=
  (v + 0.5).floor

def functions : List Function :=
  [⟨"sin", .elementwise Float.sin⟩, ⟨"cos", .elementwise Float.cos⟩,
   ⟨"tan", .elementwise Float.tan⟩, ⟨"asin", .elementwise Float.asin⟩,
   ⟨"acos", .elementwise Float.acos⟩, ⟨"atan", .elementwise Float.atan⟩,
   ⟨"sinh", .elementwise Float.sinh⟩, ⟨"cosh", .elementwise Float.cosh⟩,
   ⟨"tanh", .elementwise Float.tanh⟩, ⟨"exp", .elementwise Float.exp⟩,
   ⟨"log", .elementwise Float.log⟩, ⟨"abs", .elementwise Float.abs⟩,
   ⟨"sqrt", .elementwise Float.sqrt⟩, ⟨"floor", .elementwise Float.floor⟩,
   ⟨"ceil", .elementwise Float.ceil⟩, ⟨"round", .strict roundHalfUp⟩,
   ⟨"max", .fold maximum⟩, ⟨"min", .fold minimum⟩]

def function? (name : String) : Option Function :=
  functions.find? (·.name == name)

/-- The named numbers, `pi` and `e` in this order. -/
def constants : List (String × Float) :=
  [("pi", Float.ofBits 0x400921FB54442D18), ("e", Float.ofBits 0x4005BF0A8B145769)]

/-- A binary operator: its precedence and its meaning. -/
structure Operator where
  precedence : Nat
  apply : Float → Float → Float

def operators : List (String × Operator) :=
  [("+", ⟨1, (· + ·)⟩), ("-", ⟨1, (· - ·)⟩), ("*", ⟨2, (· * ·)⟩), ("/", ⟨2, (· / ·)⟩),
   ("^", ⟨4, Float.pow⟩)]

def operator? (op : String) : Option Operator :=
  operators.lookup op

/-- The names of two lists, each once if that holds of either list. -/
def joinNames (as bs : List String) : List String :=
  as ++ bs.filter fun b => !as.contains b

mutual

/-- The names of the variables that occur in a tree, without repetitions. -/
def variableNames : Expr → List String
  | num _ | foreign _ => []
  | var name => [name]
  | unary _ operand => operand.variableNames
  | binary _ left right => joinNames left.variableNames right.variableNames
  | call _ args => variableNamesOfAll args

def variableNamesOfAll : List Expr → List String
  | [] => []
  | arg :: args => joinNames arg.variableNames (variableNamesOfAll args)

end

/-- The names of the variables in order. -/
def sortedVariables (e : Expr) : List String :=
  e.variableNames.mergeSort (· ≤ ·)

end Expr

end Relief
