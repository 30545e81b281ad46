import Relief.Yaml.Kind
import Relief.Yaml.Wording

/-!
Documents as trees. A node may have an anchor, by which it may stand elsewhere once more, even within
itself.
-/
namespace Relief.Yaml

inductive Node where
  | scalar (kind : Kind) (text : Wording)
  | sequence (kind : Kind) (items : List Node)
  | mapping (kind : Kind) (entries : List (Node × Node))
  /-- The node whose anchor has a number. -/
  | reference (anchor : Nat)
  | anchored (anchor : Nat) (node : Node)
  /-- A collection that stands within itself. -/
  | again (node : Node)
  deriving Inhabited

abbrev Anchors := List (Nat × Node)

namespace Node

def kind : Node → Kind
  | scalar kind _ | sequence kind _ | mapping kind _ => kind
  | anchored _ n | again n => n.kind
  | reference _ => .unknown

/-- Whether a node is the key of entries that are those of other mappings. -/
def isMerge (n : Node) : Bool := n.kind == .merge

/-- A collection without what is in it. -/
def hollow : Node → Node
  | sequence kind _ => sequence kind []
  | mapping kind _ => mapping kind []
  | n => n

mutual

/-- The nodes that have anchors. -/
def anchors : Node → Anchors
  | anchored a n => (a, n) :: n.anchors
  | sequence _ items => anchorsOfItems items
  | mapping _ entries => anchorsOfEntries entries
  | again n => n.anchors
  | scalar .. | reference _ => []

def anchorsOfItems : List Node → Anchors
  | [] => []
  | n :: ns => n.anchors ++ anchorsOfItems ns

def anchorsOfEntries : List (Node × Node) → Anchors
  | [] => []
  | (k, v) :: es => k.anchors ++ v.anchors ++ anchorsOfEntries es

end

mutual

/-- A node without anchors, with every reference replaced by what stands for it within nodes with some
anchors. A mapping that only gives its entries to another is not around them. -/
def replace (target : (given : Bool) → (anchor : Nat) → (around : List Nat) → Node) (given : Bool) :
    (around : List Nat) → Node → Node
  | _, scalar kind text => scalar kind text
  | around, sequence kind items => sequence kind (replaceItems target given around items)
  | around, mapping kind entries => mapping kind (replaceEntries target around entries)
  | around, reference a => target given a around
  | around, anchored a n => replace target given (if given then around else a :: around) n
  | around, again n => again (replace target given around n)

def replaceItems (target : (given : Bool) → (anchor : Nat) → (around : List Nat) → Node)
    (given : Bool) : (around : List Nat) → List Node → List Node
  | _, [] => []
  | around, n :: ns =>
    replace target given around n :: replaceItems target given around ns

def replaceEntries (target : (given : Bool) → (anchor : Nat) → (around : List Nat) → Node) :
    (around : List Nat) → List (Node × Node) → List (Node × Node)
  | _, [] => []
  | around, (k, v) :: es =>
    (replace target false around k, replace target k.isMerge around v)
      :: replaceEntries target around es

end

/-- A node with its references followed, to a depth of so many. One to a collection around it is
followed once more, or not at all. -/
def follow (env : Anchors) :
    (once : Bool) → (limit : Nat) → (given : Bool) → (around : List Nat) → Node → Node
  | _, 0, given, around, n =>
    n.replace (fun _ a _ => ((env.lookup a).getD (reference a)).hollow) given around
  | once, limit + 1, given, around, n =>
    let target (given : Bool) (a : Nat) (around : List Nat) : Node :=
      match env.lookup a with
      | none => reference a
      | some n =>
        if !around.contains a then
          follow env once limit given (if given then around else a :: around) n
        else if once then again (follow env false limit false around n)
        else n.hollow
    n.replace target given around

/-- A document without references. -/
def resolve (n : Node) : Node :=
  let env := n.anchors
  follow env true (2 * env.length + 2) false [] n

end Node

end Relief.Yaml
