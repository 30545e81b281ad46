import Relief.Value

/-!
Arrays of numbers in any number of dimensions, and operations on two of them. A dimension of size one
fits every size, and missing outer dimensions fit everything.
-/
namespace Relief

structure Field where
  /-- The sizes of the dimensions, the innermost first. -/
  sizes : List Nat
  /-- The numbers in row-major order. -/
  values : Array Float

namespace Field

/-- The sizes, the outermost first. -/
def shape (f : Field) : List Nat := f.sizes.reverse

def count (sizes : List Nat) : Nat := sizes.foldr (· * ·) 1

def scalar (v : Float) : Field := ⟨[], #[v]⟩

def joinSize (a b : Nat) : Option Nat :=
  if a = b ∨ b = 1 then some a else if a = 1 then some b else none

/-- The sizes that two arrays have together. -/
def joinSizes : List Nat → List Nat → Option (List Nat)
  | [], bs => some bs
  | as, [] => some as
  | a :: as, b :: bs => do
    let size ← joinSize a b
    let sizes ← joinSizes as bs
    return size :: sizes

/-- The place in an array of sizes `part` that stands for the place `k` of an array of sizes `whole`
which it fits. -/
def place : (whole part : List Nat) → Nat → Nat
  | size :: whole, p :: part, k =>
    (if p = 1 then 0 else k % size) + p * place whole part (k / size)
  | _, _, _ => 0

/-- The number that stands for place `k` of an array of the given sizes. -/
def read (f : Field) (whole : List Nat) (k : Nat) : Float :=
  (f.values[place whole f.sizes k]?).getD 0.0

/-- An array of the given sizes, each number repeated where it stands for several places. -/
def spread (f : Field) (whole : List Nat) : Field where
  sizes := whole
  values := Array.ofFn fun k : Fin (count whole) => f.read whole k

def map (op : Float → Float) (f : Field) : Field :=
  ⟨f.sizes, f.values.map op⟩

/-- An operation place by place, if the sizes fit. -/
def zipWith (op : Float → Float → Float) (f g : Field) : Option Field :=
  (joinSizes f.sizes g.sizes).map fun whole =>
    ⟨whole, Array.ofFn fun k : Fin (count whole) => op (f.read whole k) (g.read whole k)⟩

/-- Arrays of one shape in a row, as one array with a further dimension outside. -/
def stack : List Field → Option Field
  | [] => some ⟨[0], #[]⟩
  | f :: fs =>
    if fs.all (·.sizes == f.sizes) then
      some ⟨f.sizes ++ [fs.length + 1], fs.foldl (fun vs g => vs ++ g.values) f.values⟩
    else none

/-- Why data is no array of numbers. -/
inductive ReadError where
  | notNumber (e : Value.FloatError)
  | ragged

mutual

/-- Nested lists of numbers as an array. What is missing is a NaN. -/
def ofValue : Value → Except ReadError Field
  | .list items => do
    match stack (← ofValues items) with
    | some f => return f
    | none => throw .ragged
  | .null => .ok (scalar (0.0 / 0.0))
  | v =>
    match v.toFloat with
    | .ok v => .ok (scalar v)
    | .error e => .error (.notNumber e)

def ofValues : List Value → Except ReadError (List Field)
  | [] => .ok []
  | v :: vs => do
    let f ← ofValue v
    let fs ← ofValues vs
    return f :: fs

end

end Field

end Relief
