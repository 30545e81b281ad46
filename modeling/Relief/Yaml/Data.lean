import Relief.Text.Base64
import Relief.Value.Code
import Relief.Yaml.Parser

/-!
The values that trees of nodes stand for. Keys of a mapping differ, except that it may be given the
entries of others, which its own replace.
-/
namespace Relief.Yaml

open Relief.Number Relief.Text

/-- A cause, and how many collections deep inside a node it is. The outer ones come first. -/
structure Fault where
  depth : Nat
  cause : Cause
  deriving DecidableEq, Repr

/-- What is made of a node, or the first fault in it. -/
abbrev Made (α : Type) := Except Fault α

def fault {α : Type} (cause : Cause) : Made α := .error ⟨0, cause⟩

/-- Faults of a part that is a collection, as those of the whole. -/
def deeper {α : Type} : Made α → Made α
  | .ok a => .ok a
  | .error f => .error { f with depth := f.depth + 1 }

/-- Both of two results, or the fault that is less deep, of equal ones that of the first. -/
def both {α β : Type} : Made α → Made β → Made (α × β)
  | .ok a, .ok b => .ok (a, b)
  | .error f, .error g => .error (if g.depth < f.depth then g else f)
  | .error f, .ok _ => .error f
  | .ok _, .error g => .error g

/-! ### Scalars -/

def orNumber {α : Type} (found : Option α) : Made α :=
  match found with
  | some a => .ok a
  | none => fault .number

/-- A numeral without the underscores in it, as a sign and the rest, if there is any. -/
def numeral (s : String) : Made (Bool × List Char) :=
  match s.toList.filter (· != '_') with
  | [] => fault .emptyNumber
  | cs => .ok (signed cs)

/-- A number whose digits in base sixty are written as decimals. -/
def sexagesimal? (cs : List Char) : Option Int :=
  ((cs.splitOn ':').mapM fun part => readInt? (String.ofList part)).map fun digits =>
    digits.foldl (fun n d => 60 * n + d) 0

def absOf (v : Version) (cs : List Char) : Made Int :=
  let s := String.ofList cs
  match basePart cs, v, cs with
  | (10, _), .v11, [] => fault .emptyNumber
  | (10, _), .v11, '0' :: _ => orNumber (if s == "0" then some 0 else readBits? 8 s)
  | (10, _), .v11, _ => orNumber (if cs.contains ':' then sexagesimal? cs else readInt? s)
  | (10, _), .v12, _ => orNumber (readInt? s)
  | (base, ds), _, _ => orNumber (readBits? base (String.ofList ds))

def intOf (v : Version) (s : String) : Made Value := do
  let (negative, cs) ← numeral s
  let n ← absOf v cs
  return .int (if negative then -n else n)

/-- The sum of digits in base sixty, the last one first. -/
def sexagesimalSum : (power : Nat) → (sum : Float) → List Float → Made Float
  | _, sum, [] => .ok sum
  | power, sum, d :: ds =>
    match floatOfInt? (Nat.pow 60 power) with
    | some base => sexagesimalSum (power + 1) (sum + d * base) ds
    | none => fault .tooLarge

def magnitudeOf (v : Version) (cs : List Char) : Made Float :=
  match (String.ofList cs).toLower, v with
  | ".inf", _ => .ok (1.0 / 0.0)
  | ".nan", _ => .ok (0.0 / 0.0)
  | s, v =>
    if v == .v11 && cs.contains ':' then do
      let digits ← orNumber ((cs.splitOn ':').mapM fun part => readFloat? (String.ofList part))
      sexagesimalSum 0 0.0 digits.reverse
    else orNumber (readFloat? s)

def floatOf (v : Version) (s : String) : Made Value := do
  let (negative, cs) ← numeral s
  let x ← magnitudeOf v cs
  return .float (if negative then -1.0 * x else x)

def trueWords : List String := ["yes", "y", "true", "on"]
def falseWords : List String := ["no", "n", "false", "off"]

def boolOf (s : String) : Made Value :=
  if trueWords.contains s.toLower then .ok (.bool true)
  else if falseWords.contains s.toLower then .ok (.bool false)
  else fault .truth

def stampOf (s : String) : Made Value :=
  match Stamp.parse? (dropLastBreak s.toList) with
  | none => fault .malformed
  | some t =>
    if !t.isValid then fault .number
    else match t.reading? with
      | some r => .ok (.stamp r.text r.code r.instant)
      | none => fault .tooLarge

def isAscii (c : Char) : Bool := c.toNat < 128

def octetsOf (s : String) : Made Value :=
  match if s.toList.all isAscii then Base64.decode? s.toList else none with
  | some bytes => .ok (.octets bytes)
  | none => fault .malformed

def textOf : Wording → Value
  | .text s => .text s
  | .codes cs => .codes cs

/-- The value of a scalar. Tags of collections are found to be wrong only when their content is looked
for. -/
def scalarValue (kind : Kind) (text : Wording) : Made Value :=
  let s := text.string
  match kind with
  | .text => .ok (textOf text)
  | .int v => intOf v s
  | .float v => floatOf v s
  | .bool => boolOf s
  | .null => .ok .null
  | .stamp => stampOf s
  | .octets => octetsOf s
  | .sequence | .mapping | .pairs | .orderedMapping | .set => deeper (fault .malformed)
  | .merge | .value | .unknown => fault .malformed

namespace Node

/-! ### Given entries -/

def isMapping : Node → Bool
  | mapping .. => true
  | again n => n.isMapping
  | _ => false

mutual

/-- Whether a mapping that is given the entries of a node gets any. -/
def hasEntries : Node → Bool
  | mapping _ entries => haveEntries entries
  | sequence _ items => anyHasEntries items
  | again n => n.hasEntries
  | _ => false

def anyHasEntries : List Node → Bool
  | [] => false
  | n :: ns => n.hasEntries || anyHasEntries ns

def haveEntries : List (Node × Node) → Bool
  | [] => false
  | (k, v) :: es => !k.isMerge || v.hasEntries || haveEntries es

end

mutual

/-- Whether a mapping can be given the entries of a node: a mapping, or several in a list. -/
def isMergeable : Node → Bool
  | mapping _ entries => canMerge false entries
  | sequence _ items => areMergeable items
  | again n => n.isMergeable
  | _ => false

def areMergeable : List Node → Bool
  | [] => true
  | n :: ns => n.isMapping && n.isMergeable && areMergeable ns

/-- Whether a mapping can be given all that it is to be given. It is given entries once. -/
def canMerge (given : Bool) : List (Node × Node) → Bool
  | [] => true
  | (k, v) :: es =>
    if k.isMerge then !given && v.isMergeable && canMerge v.hasEntries es else canMerge given es

end

/-! ### Values -/

/-- The text that a node with a tag of scalars has: its own, or that of the value that a mapping is
marked to have. -/
def wording? : Node → Option Wording
  | scalar _ text => some text
  | mapping _ entries => markedWording? entries
  | again n => n.wording?
  | _ => none
where
  markedWording? : List (Node × Node) → Option Wording
    | [] => none
    | (k, v) :: es => if k.kind == .value then v.wording? else markedWording? es

/-- The value of a collection whose tag is one of scalars, or none that is known. -/
def asScalar (n : Node) : Made Value :=
  match n.kind, n.wording? with
  | .stamp, _ => fault .malformed
  | kind, some text => scalarValue kind text
  | _, none => fault .malformed

/-- Whether a node is a number in words. Two of these are different keys, whatever they stand for. -/
def isWordNumber : Node → Bool
  | scalar (.float _) text => !text.string.contains '.'
  | _ => false

/-- What a key may be: a value that never changes. -/
def checkKey (key : Value) : Made Unit :=
  if key.isFixed then .ok () else fault .compoundKey

def isOpenEnded : Value → Bool
  | .map _ | .orderedMap _ | .set _ => true
  | .again v => isOpenEnded v
  | _ => false

mutual

def value : Node → Made Value
  | scalar kind text => scalarValue kind text
  | sequence kind items =>
    match kind with
    | .sequence => deeper ((values items).map .list)
    | .pairs => deeper ((pairValues items).map fun es => .list (es.map fun (k, v) => .tuple [k, v]))
    | .orderedMapping => deeper ((orderedValues [] items).map .orderedMap)
    | .mapping | .set => deeper (fault .malformed)
    | _ => fault .malformed
  | mapping kind entries =>
    match kind with
    | .mapping => deeper ((entryValues entries).map .map)
    | .set => deeper ((entryValues entries).map fun es => .set (es.map (·.1)))
    | .sequence | .pairs | .orderedMapping => deeper (fault .malformed)
    | _ => asScalar (mapping kind entries)
  | again n => n.value.map .again
  | reference _ | anchored _ _ => fault .malformed

def values : List Node → Made (List Value)
  | [] => .ok []
  | n :: ns => (both n.value (values ns)).map fun (v, vs) => v :: vs

/-- The entries of a mapping, those that it is given first. -/
def entryValues (entries : List (Node × Node)) : Made (List (Value × Value)) :=
  if !canMerge false entries then fault .malformed
  else match merged entries with
    | .ok [] => own true [] entries
    | first => (both first (own false [] entries)).map fun (a, b) => Value.lastEntries (a ++ b)

/-- The entries that a mapping is given. -/
def merged : List (Node × Node) → Made (List (Value × Value))
  | [] => .ok []
  | (k, v) :: es =>
    if k.isMerge then (both v.given (merged es)).map fun (a, b) => a ++ b else merged es

/-- The entries that a node gives. Of a list, the last mapping comes first. -/
def given : Node → Made (List (Value × Value))
  | mapping _ entries =>
    (both (merged entries) (own false [] entries)).map fun (a, b) => a ++ b
  | sequence _ items => givenByAll items
  | again n => n.given
  | _ => fault .malformed

def givenByAll : List Node → Made (List (Value × Value))
  | [] => .ok []
  | n :: ns => (both (givenByAll ns) n.given).map fun (a, b) => a ++ b

/-- The entries that a mapping has of its own, after some keys from which theirs may have to differ. -/
def own (differ : Bool) (seen : List Value) : List (Node × Node) → Made (List (Value × Value))
  | [] => .ok []
  | (k, v) :: es =>
    if k.isMerge then own differ seen es
    else match k.key with
      | .error f => fault f.cause
      | .ok key =>
        if isOpenEnded key then fault .malformed
        else
          let rest :=
            match checkKey key with
            | .error f => .error f
            | .ok _ =>
              if differ && seen.any (Value.sameKey key) then fault .malformed
              else own differ (if k.isWordNumber then seen else key :: seen) es
          (both v.value rest).map fun (v, es) => (key, v) :: es

/-- A node as a key, where the mark of a value is a text. -/
def key : Node → Made Value
  | scalar kind text => scalarValue (if kind == .value then .text else kind) text
  | n => n.value.map Value.asKey

/-- The pairs of a sequence, each a mapping with one entry. -/
def pairValues : List Node → Made (List (Value × Value))
  | [] => .ok []
  | n :: ns =>
    match n with
    | mapping _ [(k, v)] | again (mapping _ [(k, v)]) =>
      (both k.value (both v.value (pairValues ns))).map fun (k, v, es) => (k, v) :: es
    | _ => fault .malformed

/-- Pairs whose keys differ from some before them and from each other. -/
def orderedValues (seen : List Value) : List Node → Made (List (Value × Value))
  | [] => .ok []
  | n :: ns =>
    match n with
    | mapping _ [(k, v)] | again (mapping _ [(k, v)]) =>
      match k.value with
      | .error ⟨0, cause⟩ => fault cause
      | .error _ => fault .compoundKey
      | .ok key =>
        if !key.isFixed then fault .compoundKey
        else if seen.any (Value.sameKey key) then fault .repeatedKey
        else
          let seen := if k.isWordNumber then seen else key :: seen
          (both v.value (orderedValues seen ns)).map fun (v, es) => (key, v) :: es
    | _ => fault .malformed

end

end Node

/-- The value of a text, none for an empty one. -/
def read (s : String) : Except Cause (Option Value) := do
  match ← parse s with
  | none => return none
  | some n =>
    match n.value with
    | .ok v => return some v
    | .error f => .error f.cause

end Relief.Yaml
