import Relief.Scalar

/-!
The rectangle over which a function is sampled, and the lines of the grid in it.
-/
namespace Relief

structure Domain (α : Type) [Scalar α] where
  xmin : α
  xmax : α
  ymin : α
  ymax : α
  /-- The number of grid cells in each direction. -/
  resolution : Nat
  x_finite : Scalar.isFinite xmin = true ∧ Scalar.isFinite xmax = true
  y_finite : Scalar.isFinite ymin = true ∧ Scalar.isFinite ymax = true
  xmin_lt_xmax : xmin < xmax
  ymin_lt_ymax : ymin < ymax
  resolution_pos : 0 < resolution

namespace Domain

variable {α : Type} [Scalar α]

def xSpan (d : Domain α) : α := d.xmax - d.xmin
def ySpan (d : Domain α) : α := d.ymax - d.ymin

/-- The `k`-th of the lines that divide a side into equal steps. -/
def line (low span : α) (resolution k : Nat) : α :=
  low + span * Scalar.ofNat k / Scalar.ofNat resolution

def xAt (d : Domain α) (i : Nat) : α := line d.xmin d.xSpan d.resolution i
def yAt (d : Domain α) (j : Nat) : α := line d.ymin d.ySpan d.resolution j

/-- The number of grid lines in each direction. -/
def side (d : Domain α) : Nat := d.resolution + 1

def xs (d : Domain α) : Array α := Array.ofFn fun i : Fin d.side => d.xAt i
def ys (d : Domain α) : Array α := Array.ofFn fun j : Fin d.side => d.yAt j

/-- Whether two domains have the same bounds and resolution. -/
def same (d e : Domain α) : Bool :=
  Scalar.same d.xmin e.xmin && Scalar.same d.xmax e.xmax && Scalar.same d.ymin e.ymin
    && Scalar.same d.ymax e.ymax && d.resolution == e.resolution

end Domain

/-- Why bounds make no rectangle. -/
inductive BoundsError where
  | notFinite (name : String)
  | empty (axis : String) (low high : Float)

namespace Domain

/-- The rectangle with the given bounds. -/
def ofBounds (xmin xmax ymin ymax : Float) (resolution : Nat) (h : 0 < resolution) :
    Except BoundsError (Domain Float) :=
  if x0 : xmin.isFinite = true then
    if x1 : xmax.isFinite = true then
      if y0 : ymin.isFinite = true then
        if y1 : ymax.isFinite = true then
          if hx : xmin < xmax then
            if hy : ymin < ymax then
              .ok ⟨xmin, xmax, ymin, ymax, resolution, ⟨x0, x1⟩, ⟨y0, y1⟩, hx, hy, h⟩
            else .error (.empty "y" ymin ymax)
          else .error (.empty "x" xmin xmax)
        else .error (.notFinite "ymax")
      else .error (.notFinite "ymin")
    else .error (.notFinite "xmax")
  else .error (.notFinite "xmin")

/-- Five in every direction, fifty cells a side. -/
def standard : Domain Float where
  xmin := -5.0
  xmax := 5.0
  ymin := -5.0
  ymax := 5.0
  resolution := 50
  x_finite := by decide
  y_finite := by decide
  xmin_lt_xmax := by decide
  ymin_lt_ymax := by decide
  resolution_pos := by decide

end Domain

end Relief
