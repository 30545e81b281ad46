import Relief.Mesh.Basic

/-!
Lines of equal height, as segments across triangles.
-/
namespace Relief

structure Segment (α : Type) where
  start : Vec3 α
  stop : Vec3 α

structure Contour (α : Type) where
  level : α
  segments : List (Segment α)

namespace Mesh

variable {α : Type} [Scalar α]

def standardLevelCount : Int := 10

/-- Evenly spaced levels strictly inside the range of heights. -/
def contourLevels (m : Mesh α) (count : Int) : List α :=
  if count < 1 then []
  else if m.zMax ≤ m.zMin then []
  else (List.range count.toNat).map fun k =>
    m.zMin + (m.zMax - m.zMin) * Scalar.ofNat (k + 1) / Scalar.ofNat (count.toNat + 1)

def isAbove (level : α) (v : Vec3 α) : Bool :=
  level ≤ v.z

/-- Where an edge crosses a level, if its ends are on different sides. -/
def crossing? (level : α) (u v : Vec3 α) : Option (Vec3 α) :=
  if isAbove level u != isAbove level v then
    some (u.towards v ((level - u.z) / (v.z - u.z)))
  else none

/-- The segment across a triangle whose corners are all finite. -/
def segment? (m : Mesh α) (level : α) (t : Triangle) : Option (Segment α) :=
  if t.indices.all m.isFinite then
    let u := m.vertex t.a
    let v := m.vertex t.b
    let w := m.vertex t.c
    match [crossing? level u v, crossing? level v w, crossing? level w u].filterMap id with
    | [p, q] => some ⟨p, q⟩
    | _ => none
  else none

def contour (m : Mesh α) (level : α) : Contour α :=
  ⟨level, m.triangles.filterMap (m.segment? level)⟩

end Mesh

end Relief
