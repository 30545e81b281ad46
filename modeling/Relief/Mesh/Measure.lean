import Relief.Mesh.Basic
import Relief.Sum

/-!
Measures of a surface: its area, the volume under it, and its lowest and highest points.
-/
namespace Relief

structure Measures (α : Type) where
  zMin : α
  zMax : α
  surfaceArea : α
  volume : α

/-- The lowest and the highest vertex. There is no highest one where it would be the lowest again. -/
structure Extrema (α : Type) where
  lowest : Option (Nat × Vec3 α)
  highest : Option (Nat × Vec3 α)

namespace Mesh

variable {α : Type} [Scalar α]

/-- The cross product of two sides of a triangle, which is twice as long as the triangle is large. -/
def faceVector (m : Mesh α) (t : Triangle) : Vec3 α :=
  (m.vertex t.b - m.vertex t.a).cross (m.vertex t.c - m.vertex t.a)

def surfaceArea (m : Mesh α) : α :=
  pairwiseSum (m.triangles.map fun t => (m.faceVector t).norm) / Scalar.ofNat 2

/-- The volume of the columns under the finite vertices. All vertices have equal shares of the
domain. -/
def volume (m : Mesh α) (d : Domain α) : α :=
  let n : α := Scalar.sqrt (Scalar.ofNat m.vertexCount)
  pairwiseSum (m.finiteVertices.map fun k => (m.vertex k).z) * (d.xSpan / n) * (d.ySpan / n)

def measures (m : Mesh α) (d : Domain α) : Measures α where
  zMin := m.zMin
  zMax := m.zMax
  surfaceArea := m.surfaceArea
  volume := m.volume d

/-- The first of some vertices that no later one beats. -/
def firstBest (m : Mesh α) (beats : α → α → Bool) : List Nat → Option Nat
  | [] => none
  | k :: ks => some (ks.foldl
      (fun best k => if beats (m.vertex k).z (m.vertex best).z then k else best) k)

def extrema (m : Mesh α) : Extrema α :=
  let low := m.firstBest (fun v w => v < w) m.finiteVertices
  let high := m.firstBest (fun v w => w < v) m.finiteVertices
  { lowest := low.map fun k => (k, m.vertex k)
    highest := if high = low then none else high.map fun k => (k, m.vertex k) }

end Mesh

end Relief
