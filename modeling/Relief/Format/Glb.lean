import Relief.Format.Container
import Relief.Format.Json
import Relief.Format.Surface
import Relief.Mesh.Coloring
import Relief.Mesh.Normal
import Relief.Number.Binary32

/-!
Surfaces as a binary scene: a text that describes blocks of words, and the words. Each surface is a
node with a mesh and a material of its own, and its up is the scene's second axis.
-/
namespace Relief.Format.Glb

open Relief.Number

/-- How the words of a block are read. -/
inductive Component where
  | float32
  | word32
  deriving DecidableEq, Repr

/-- Words, read one or three at a time. -/
structure Block where
  component : Component
  width : Nat
  words : List UInt32
  /-- The least and the greatest element, axis by axis. -/
  bounds : Option (Vec3 Float × Vec3 Float)

namespace Block

def count (b : Block) : Nat := b.words.length / b.width

def byteLength (b : Block) : Nat := 4 * b.words.length

end Block

/-- The word of the nearest number of 32 bits. A zero has no sign. -/
def single (v : Float) : UInt32 :=
  let w := Binary32.ofFloat v
  if w = Binary32.withSign true 0 then 0 else w

def singleVec (v : Vec3 Float) : List UInt32 :=
  [v.x, v.y, v.z].map single

def dot (u v : Vec3 Float) : Float :=
  u.x * v.x + u.y * v.y + u.z * v.z

/-- A direction in the axes of the scene. -/
def upright (v : Vec3 Float) : Vec3 Float :=
  ⟨dot ⟨1.0, 0.0, 0.0⟩ v, dot ⟨0.0, 0.0, 1.0⟩ v, dot ⟨0.0, -1.0, 0.0⟩ v⟩

/-- What is best on each axis, as numbers of 32 bits. -/
def boundOf (best? : List Float → Option Float) (vs : List (Vec3 Float)) : Vec3 Float :=
  let along (axis : Vec3 Float → Float) : Float :=
    (best? (vs.map fun v => Binary32.toFloat (single (axis v)))).getD 0.0
  ⟨along Vec3.x, along Vec3.y, along Vec3.z⟩

def vecBlock (vs : List (Vec3 Float)) : Block :=
  ⟨.float32, 3, vs.flatMap singleVec, none⟩

def positionBlock (m : Mesh Float) : Block :=
  let vs := m.vertices.toList.map upright
  { vecBlock vs with bounds := some (boundOf Scalar.least? vs, boundOf Scalar.greatest? vs) }

def normalBlock (m : Mesh Float) : Block :=
  vecBlock (m.vertexNormals.toList.map upright)

def colorBlock (colors : Array (Color Float)) : Block :=
  vecBlock (colors.toList.map fun c => ⟨c.red, c.green, c.blue⟩)

def indexBlock (m : Mesh Float) : Block :=
  ⟨.word32, 1, m.triangles.flatMap fun t => t.indices.map UInt32.ofNat, none⟩

/-- A surface as it stands in a scene. -/
structure Body where
  id : Nat
  expression : String
  /-- The color of the whole surface, by which those of its vertices are multiplied. -/
  base : Color Float
  positions : Block
  normals : Block
  colors : Option Block
  indices : Block

def Body.blocks (b : Body) : List Block :=
  [b.positions, b.normals] ++ b.colors.toList ++ [b.indices]

def white : Color Float := ⟨1.0, 1.0, 1.0⟩

def bodyOf (mode : Color.Mode) (s : Surface) : Except Color.Error Body := do
  let color ← Color.ofText s.color
  let colors := s.mesh.colors mode color
  return {
    id := s.id
    expression := s.expression
    base := if colors.isSome then white else color
    positions := positionBlock s.mesh
    normals := normalBlock s.mesh
    colors := colors.map colorBlock
    indices := indexBlock s.mesh }

/-- Why surfaces make no scene. -/
inductive Error where
  | notExported (e : ExportError)
  | color (e : Color.Error)
  /-- What no file can hold: a number that is infinite in 32 bits, a length that needs more, or a text
  that cannot be read again. -/
  | tooLarge

def Error.ofResave : ResaveError → Error
  | .malformed => .notExported .malformed
  | .unreadable | .tooLong => .tooLarge

/-- Each of a list with the sum of the sizes of those before it. -/
def withOffsets {α : Type} (size : α → Nat) : (start : Nat) → List α → List (Nat × α)
  | _, [] => []
  | start, a :: as => (start, a) :: withOffsets size (start + size a) as

def componentCode : Component → Int
  | .float32 => 5126
  | .word32 => 5125

/-- What a block of a kind is used for. -/
def targetCode : Component → Int
  | .float32 => 34962
  | .word32 => 34963

def elementName (width : Nat) : String :=
  if width = 3 then "VEC3" else "SCALAR"

def vecJson (v : Vec3 Float) : Json :=
  .list [.float v.x, .float v.y, .float v.z]

def boundsJson : Option (Vec3 Float × Vec3 Float) → List (String × Json)
  | none => []
  | some (low, high) => [("max", vecJson high), ("min", vecJson low)]

def accessorJson (index : Nat) (b : Block) : Json :=
  .object ([("bufferView", .int index), ("byteOffset", .int 0),
    ("componentType", .int (componentCode b.component)), ("normalized", .bool false),
    ("count", .int b.count), ("type", .text (elementName b.width))] ++ boundsJson b.bounds)

def viewJson (offset : Nat) (b : Block) : Json :=
  .object [("buffer", .int 0), ("byteOffset", .int offset), ("byteLength", .int b.byteLength),
    ("target", .int (targetCode b.component))]

def nameOf (b : Body) : Json :=
  .text ("equation_" ++ toString b.id)

/-- A share as it is kept, in 32 bits. -/
def shareJson (v : Float) : Json :=
  .float (Binary32.toFloat (Binary32.ofFloat v))

def materialJson (b : Body) : Json :=
  .object [
    ("pbrMetallicRoughness", .object [
      (factorName, .list ((b.base.toList ++ [1.0]).map shareJson)),
      ("metallicFactor", .float 0.0), ("roughnessFactor", .float 0.8)]),
    ("emissiveFactor", .list [.float 0.0, .float 0.0, .float 0.0]),
    ("alphaMode", .text "OPAQUE"), ("doubleSided", .bool true), ("name", nameOf b)]

/-- The mesh of a body, whose blocks are numbered from `first` on. -/
def meshJson (index first : Nat) (b : Body) : Json :=
  let attributes : List String := ["POSITION", "NORMAL"] ++ b.colors.toList.map fun _ => "COLOR_0"
  let numbered := attributes.zipIdx.map fun (name, k) => (name, Json.int (first + k))
  .object [
    ("primitives", .list [.object [("attributes", .object numbered),
      ("indices", .int (first + attributes.length)), ("mode", .int 4), ("material", .int index)]]),
    ("name", nameOf b)]

/-- The node of a body. It has no name if the expression is empty. -/
def nodeJson (index : Nat) (b : Body) : Json :=
  .object (("mesh", .int index) ::
    if b.expression.isEmpty then [] else [("name", .text b.expression)])

def totalLength (blocks : List Block) : Nat :=
  blocks.foldl (fun n b => n + b.byteLength) 0

def generator : String := "pygltflib@v1.16.5"

def sceneJson (bodies : List Body) : Json :=
  let blocks := bodies.flatMap Body.blocks
  let firsts := withOffsets (fun b : Body => b.blocks.length) 0 bodies
  .object [
    ("accessors", .list (blocks.zipIdx.map fun (b, k) => accessorJson k b)),
    ("asset", .object [("generator", .text generator), ("version", .text "2.0")]),
    ("bufferViews", .list ((withOffsets Block.byteLength 0 blocks).map fun (k, b) => viewJson k b)),
    ("buffers", .list [.object [("byteLength", .int (totalLength blocks))]]),
    ("materials", .list (bodies.map materialJson)),
    ("meshes", .list (firsts.zipIdx.map fun ((first, b), k) => meshJson k first b)),
    ("nodes", .list (bodies.zipIdx.map fun (b, k) => nodeJson k b)),
    ("scene", .int 0),
    ("scenes", .list [.object [("nodes", .list (bodies.zipIdx.map fun (_, k) => .int k))]])]

def blockBytes (b : Block) : List UInt8 :=
  b.words.flatMap wordBytes

/-- A description and words as a file. All numbers of the description have to be finite. -/
def save (description : Json) (words : List UInt8) : Except Error (List UInt8) :=
  let text := textBytes (description.print Json.compact)
  if description.isFinite then
    match file? (chunk textChunk text ++ chunk wordChunk words) with
    | some bytes => .ok bytes
    | none => .error .tooLarge
  else .error .tooLarge

/-- The bytes of a file with all surfaces, which `save` makes of a scene and which is saved once more. -/
def ofSurfacesBy (save : Json → List UInt8 → Except Error (List UInt8)) (mode : Color.Mode)
    (surfaces : List Surface) : Except Error (List UInt8) := do
  let surfaces ← (require surfaces).mapError .notExported
  let bodies ← (surfaces.mapM (bodyOf mode)).mapError .color
  let bytes ← save (sceneJson bodies) ((bodies.flatMap Body.blocks).flatMap blockBytes)
  (resave bytes).mapError .ofResave

def ofSurfaces (mode : Color.Mode) (surfaces : List Surface) : Except Error (List UInt8) :=
  ofSurfacesBy save mode surfaces

end Relief.Format.Glb
