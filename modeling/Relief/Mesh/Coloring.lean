import Relief.Color
import Relief.Mesh.Basic

/-!
Colors of the vertices of a surface, by height or by slope.
-/
namespace Relief.Mesh

variable {α : Type} [Scalar α]

open Scalar

def half : α := one / ofNat 2

/-- The height of each vertex as a share of the range, one half on a flat surface. -/
def heightParameter (m : Mesh α) : Array α :=
  m.vertices.map fun v =>
    if same m.zMax m.zMin then half
    else clamp zero one ((v.z - m.zMin) / (m.zMax - m.zMin))

/-- Whether a vertex has neighbours on all sides. -/
def isInterior (m : Mesh α) (k : Nat) : Bool :=
  let i := k / m.side
  let j := k % m.side
  0 < i && i < m.resolution && 0 < j && j < m.resolution

/-- The slope between the neighbours of an interior vertex on both lines through it. -/
def gradient (m : Mesh α) (k : Nat) : α :=
  let east := m.vertex (k + m.side)
  let west := m.vertex (k - m.side)
  let north := m.vertex (k + 1)
  let south := m.vertex (k - 1)
  hypot ((east.z - west.z) / (east.x - west.x)) ((north.z - south.z) / (north.y - south.y))

/-- The slope at each vertex as a share of the steepest, zero on the border. -/
def slopeParameter (m : Mesh α) : Array α :=
  let slopes := m.vertices.mapIdx fun k _ => if m.isInterior k then some (m.gradient k) else none
  let peak := (greatest? (slopes.toList.filterMap id)).getD zero
  slopes.map fun slope =>
    match slope with
    | some s => if (zero : α) < peak then clamp zero one (s / peak) else zero
    | none => zero

def darkShare : α := 0.5
def lightShare : α := 0.3

/-- From a darker to a lighter shade of a color. -/
def shade (base : Color α) (t : α) : Color α :=
  base.map fun c =>
    let dark := c * darkShare
    let light := c + (one - c) * lightShare
    dark + t * (light - dark)

/-- One channel of a fully saturated hue, by its distance from the hue of the channel. -/
def hueChannel (hue : α) : α :=
  let t := fractional hue
  let saturation : α := one
  let lightness : α := half
  let q := lightness + saturation - lightness * saturation
  let p := ofNat 2 * lightness - q
  if t < one / ofNat 6 then p + (q - p) * ofNat 6 * t
  else if t < one / ofNat 2 then q
  else if t < ofNat 2 / ofNat 3 then p + (q - p) * (ofNat 2 / ofNat 3 - t) * ofNat 6
  else p

def hueColor (hue : α) : Color α :=
  ⟨hueChannel (hue + one / ofNat 3), hueChannel hue, hueChannel (hue - one / ofNat 3)⟩

/-- The hue at the top, a blue. The bottom is red. -/
def hueSpan : α := 0.7

def coolWarm (t : α) : Color α :=
  ⟨t, half, one - t⟩

/-- The color of each vertex. In solid mode there are none, and the whole surface has one color. -/
def colors (m : Mesh α) (mode : Color.Mode) (base : Color α) : Option (Array (Color α)) :=
  match mode with
  | .solid => none
  | .slope => some (m.slopeParameter.map (shade base))
  | .height => some (m.heightParameter.map (shade base))
  | .rainbow => some (m.heightParameter.map fun t => hueColor (t * hueSpan))
  | .coolWarm => some (m.heightParameter.map coolWarm)

end Relief.Mesh
