import Relief.Mesh.Measure

/-!
Directions in which a surface faces, at its vertices and on its triangles.
-/
namespace Relief

/-- The direction at a vertex. -/
structure Arrow (α : Type) where
  index : Nat
  origin : Vec3 α
  direction : Vec3 α

/-- The direction of a facet with the given corners, zero if it has no area. -/
def facetNormal {α : Type} [Scalar α] (u v w : Vec3 α) : Vec3 α :=
  let n := (w - v).cross (u - v)
  if (Scalar.zero : α) < n.norm then n.divide n.norm else Vec3.zero

/-- A point by its number, which counts from the end if it is negative. -/
def pointAt? {α : Type} (vertices : Array (Vec3 α)) (k : Int) : Option (Vec3 α) :=
  let k := if k < 0 then k + vertices.size else k
  if k < 0 then none else vertices[k.toNat]?

namespace Mesh

variable {α : Type} [Scalar α]

/-- Directions shorter than this stay as they are. -/
def leastLength : α := 1e-30

/-- To length one. -/
def normalize (v : Vec3 α) : Vec3 α :=
  if leastLength < v.norm then v.divide v.norm else v

/-- Adds each triangle's vector to one of its corners. -/
def addFaces (faces : List (Triangle × Vec3 α)) (corner : Triangle → Nat)
    (sums : Array (Vec3 α)) : Array (Vec3 α) :=
  faces.foldl (fun sums (t, v) => sums.modify (corner t) (· + v)) sums

/-- The sum of the vectors of the triangles around each vertex. -/
def faceSums (m : Mesh α) : Array (Vec3 α) :=
  let faces := m.triangles.map fun t => (t, m.faceVector t)
  [Triangle.a, Triangle.b, Triangle.c].foldl (fun sums corner => addFaces faces corner sums)
    (Array.replicate m.vertexCount Vec3.zero)

/-- The direction at each vertex, weighted by area. -/
def vertexNormals (m : Mesh α) : Array (Vec3 α) :=
  m.faceSums.map normalize

/-- Every how manieth vertex shows its direction if about `target` of them do. -/
def arrowStep (count : Nat) (target : Int) : Option Nat :=
  if target = 0 then none else some (max 1 (-(Int.fdiv (-(count : Int)) target)).toNat)

/-- How many directions are shown unless a caller says otherwise. -/
def standardTarget : Int := 200

/-- Directions at evenly spaced vertices. There are none at vertices without a finite value, nor zero
ones. -/
def arrows (m : Mesh α) (target : Int) : Option (List (Arrow α)) :=
  (arrowStep m.vertexCount target).map fun step =>
    let normals := m.vertexNormals
    (List.range ((m.vertexCount + step - 1) / step)).filterMap fun i =>
      let k := i * step
      let direction := (normals[k]?).getD Vec3.zero
      if m.isFinite k && !direction.isZero then some ⟨k, m.vertex k, direction⟩ else none

end Mesh

end Relief
