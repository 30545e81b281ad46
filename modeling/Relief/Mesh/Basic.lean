import Relief.Domain
import Relief.Vec3

/-!
Surfaces over a rectangular grid, as triangles between sampled points. Where a function has no finite
value, the surface is at height zero and marked.
-/
namespace Relief

/-- The numbers of three vertices. -/
structure Triangle where
  a : Nat
  b : Nat
  c : Nat
  deriving DecidableEq, Repr

/-- The two halves of the cell with lower corner `(i, j)`, on a grid of `n` lines each way. Both run
counterclockwise as seen from above. -/
def cellTriangles (n i j : Nat) : List Triangle :=
  let a := i * n + j
  let b := a + 1
  let c := a + n
  let d := c + 1
  [⟨a, c, b⟩, ⟨b, c, d⟩]

/-- The triangles of a grid, cell by cell. -/
def triangles (resolution : Nat) : List Triangle :=
  (List.range resolution).flatMap fun i =>
    (List.range resolution).flatMap fun j => cellTriangles (resolution + 1) i j

def Triangle.indices (t : Triangle) : List Nat := [t.a, t.b, t.c]

structure Mesh (α : Type) where
  resolution : Nat
  /-- The point over the grid lines `i` and `j` is number `i * (resolution + 1) + j`. -/
  vertices : Array (Vec3 α)
  /-- Whether the function has a finite value at a vertex. -/
  finite : Array Bool
  zMin : α
  zMax : α

namespace Mesh

variable {α : Type} [Scalar α]

def side (m : Mesh α) : Nat := m.resolution + 1

def triangles (m : Mesh α) : List Triangle := Relief.triangles m.resolution

def vertex (m : Mesh α) (k : Nat) : Vec3 α := (m.vertices[k]?).getD Vec3.zero

def isFinite (m : Mesh α) (k : Nat) : Bool := (m.finite[k]?).getD false

def vertexCount (m : Mesh α) : Nat := m.vertices.size

def triangleCount (m : Mesh α) : Nat := m.triangles.length

/-- The numbers of the vertices where the function has a finite value. -/
def finiteVertices (m : Mesh α) : List Nat :=
  (List.range m.vertexCount).filter m.isFinite

def finiteCount (m : Mesh α) : Nat := m.finiteVertices.length

def hasFinite (m : Mesh α) : Bool := m.finite.any id

/-- The surface with the given heights. The range of heights is that of the finite ones. -/
def ofHeights (d : Domain α) (heights : Array (Option α)) : Mesh α :=
  let height (k : Nat) : Option α := (heights[k]?).join
  let count := d.side * d.side
  let known := (List.range count).filterMap height
  { resolution := d.resolution
    vertices := Array.ofFn fun k : Fin count =>
      ⟨d.xAt (k / d.side), d.yAt (k % d.side), (height k).getD Scalar.zero⟩
    finite := Array.ofFn fun k : Fin count => (height k).isSome
    zMin := (Scalar.least? known).getD Scalar.zero
    zMax := (Scalar.greatest? known).getD Scalar.zero }

end Mesh

end Relief
