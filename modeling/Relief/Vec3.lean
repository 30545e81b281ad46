import Relief.Scalar

/-!
Points and directions in space.
-/
namespace Relief

structure Vec3 (α : Type) where
  x : α
  y : α
  z : α
  deriving Inhabited

namespace Vec3

variable {α : Type} [Scalar α]

def zero : Vec3 α := ⟨Scalar.zero, Scalar.zero, Scalar.zero⟩

instance : Add (Vec3 α) := ⟨fun u v => ⟨u.x + v.x, u.y + v.y, u.z + v.z⟩⟩
instance : Sub (Vec3 α) := ⟨fun u v => ⟨u.x - v.x, u.y - v.y, u.z - v.z⟩⟩

def cross (u v : Vec3 α) : Vec3 α :=
  ⟨u.y * v.z - u.z * v.y, u.z * v.x - u.x * v.z, u.x * v.y - u.y * v.x⟩

def norm (v : Vec3 α) : α :=
  Scalar.sqrt (v.x * v.x + v.y * v.y + v.z * v.z)

def divide (v : Vec3 α) (d : α) : Vec3 α :=
  ⟨v.x / d, v.y / d, v.z / d⟩

/-- `u + t (v - u)` -/
def towards (u v : Vec3 α) (t : α) : Vec3 α :=
  ⟨u.x + t * (v.x - u.x), u.y + t * (v.y - u.y), u.z + t * (v.z - u.z)⟩

def isZero (v : Vec3 α) : Bool :=
  Scalar.same v.x Scalar.zero && Scalar.same v.y Scalar.zero && Scalar.same v.z Scalar.zero

end Vec3

end Relief
