import Mathlib
import Relief.Proofs.Format.Axes
import Relief.Proofs.Format.Tiling

/-!
Scenes are read back: the text of a scene describes views of the words behind it, and through its numbers
every drawn equation leads to its own points, directions, colors and triangles.
-/
namespace Relief.Format

namespace Json

/-- A member of an object by its name. -/
def field? (name : String) : Json → Option Json
  | object members => (members.find? fun m => m.1 == name).map Prod.snd
  | _ => none

def items? : Json → Option (List Json)
  | list items => some items
  | _ => none

def nat? : Json → Option Nat
  | int n => if 0 ≤ n then some n.toNat else none
  | _ => none

def text? : Json → Option String
  | text s => some s
  | _ => none

end Json

namespace Glb

/-- A part of the words. -/
structure View where
  buffer : Nat
  offset : Nat
  length : Nat
  target : Nat

/-- How the words of a view are read. -/
structure Accessor where
  view : Nat
  offset : Nat
  component : Nat
  count : Nat
  kind : String
  bounds : Option (Vec3 Float × Vec3 Float)

/-- The triangles of a surface, by the numbers of accessors and of a material. -/
structure Primitive where
  name : String
  position : Nat
  normal : Nat
  color : Option Nat
  indices : Nat
  material : Nat

structure Node where
  mesh : Nat
  name : Option String

structure Scene where
  buffers : List Nat
  views : List View
  accessors : List Accessor
  materials : List String
  meshes : List Primitive
  nodes : List Node
  /-- The numbers of the nodes that are shown. -/
  roots : List Nat

/-! ### Reading the description -/

def natField? (name : String) (j : Json) : Option Nat :=
  (j.field? name).bind Json.nat?

def name? (j : Json) : Option String := do
  (← j.field? "name").text?

/-- A mesh of one primitive. Its color is left out where it has none. -/
def mesh? (j : Json) : Option Primitive := do
  match ← (← j.field? "primitives").items? with
  | [p] =>
    let attributes ← p.field? "attributes"
    return ⟨← name? j, ← natField? "POSITION" attributes, ← natField? "NORMAL" attributes,
      natField? "COLOR_0" attributes, ← natField? "indices" p, ← natField? "material" p⟩
  | _ => none

/-- Elements of words of a kind. -/
structure Elements where
  component : Component
  rows : List (List UInt32)

def componentOf? (code : Nat) : Option Component :=
  if code = 5126 then some .float32 else if code = 5125 then some .word32 else none

def widthOf? (kind : String) : Option Nat :=
  if kind = "VEC3" then some 3 else if kind = "SCALAR" then some 1 else none

/-- A part of a list that has to be in it. -/
def slice? {α : Type} (offset length : Nat) (as : List α) : Option (List α) :=
  if offset + length ≤ as.length then some ((as.drop offset).take length) else none

/-- What an accessor gives of the bytes of a chunk. -/
def Scene.elements? (s : Scene) (chunk : List UInt8) (k : Nat) : Option Elements := do
  let a ← s.accessors[k]?
  let v ← s.views[a.view]?
  let component ← componentOf? a.component
  let width ← widthOf? a.kind
  let bytes ← slice? a.offset (4 * width * a.count) (← slice? v.offset v.length chunk)
  return ⟨component, rows width a.count (← words? bytes)⟩

/-! ### Descriptions are read back -/

theorem mapM_map_some {α β γ : Type} {f : α → β} {g : α → γ} {read? : β → Option γ} {as : List α}
    (h : ∀ a ∈ as, read? (f a) = some (g a)) : (as.map f).mapM read? = some (as.map g) := by
  induction as with
  | nil => rfl
  | cons a as ih =>
    obtain ⟨ha, has⟩ := List.forall_mem_cons.1 h
    rw [List.map_cons, List.mapM_cons, ha, ih has]
    rfl

/-- The rows of a block, which fill it. -/
structure Block.Holds (b : Block) (c : Component) (rs : List (List UInt32)) : Prop where
  component : b.component = c
  width : b.width = 3 ∨ b.width = 1
  rows : ∀ r ∈ rs, r.length = b.width
  words : b.words = rs.flatten

variable {b : Block} {c : Component} {rs : List (List UInt32)}

theorem Block.Holds.count (h : b.Holds c rs) : b.count = rs.length := by
  have hpos : 0 < b.width := by
    obtain h | h := h.width <;> omega
  rw [Block.count, h.words, length_flatten_eq h.rows, Nat.mul_div_cancel_left _ hpos]

theorem Block.Holds.byteLength (h : b.Holds c rs) : b.byteLength = 4 * b.width * b.count := by
  rw [Block.byteLength, h.words, length_flatten_eq h.rows, h.count, Nat.mul_assoc]

theorem slice?_eq {α : Type} {offset length : Nat} {as : List α} (h : offset + length ≤ as.length) :
    slice? offset length as = some ((as.drop offset).take length) :=
  if_pos h

/-- The words of a scene, as bytes. -/
def chunkOf (bodies : List Body) : List UInt8 :=
  (bodies.flatMap Body.blocks).flatMap blockBytes

theorem length_chunkOf (bodies : List Body) :
    (chunkOf bodies).length = ((bodies.flatMap Body.blocks).map Block.byteLength).sum :=
  length_flatMap_eq length_blockBytes _

end Glb

end Relief.Format
