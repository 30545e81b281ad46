import Relief.Number.Layout
import Relief.Number.Numeral

/-!
Coordinates in files: in their shortest digits, or with a fixed number of places.
-/
namespace Relief.Format

open Relief.Number

/-- Whole numbers without a fraction and zeros without a sign, an exponent below `1e-6` and from
`1e21` on. -/
def coordinate : Layout where
  lowest := -5
  highest := 21
  wholeMark := ""
  exponentWidth := 1
  signedZero := false
  nan := "NaN"
  infinity := "Infinity"

def coordinateText (v : Float) : String :=
  coordinate.print v

/-- From here on a fixed number of places is not kept. -/
def fixedLimit : Float := 1e21

/-- A sign unless the number is zero itself. -/
def signOf (negative : Bool) (significand : Nat) (ds : List Char) : List Char :=
  sign (negative && significand != 0) ds

/-- The exact value rounded to a number of places, halves away from zero. -/
def placesText (places : Int) (v : Float) : String :=
  if v.abs < fixedLimit then
    match Binary64.ofFloat v with
    | .finite negative m e =>
      String.ofList (signOf negative m (layPlaces places (toPlaces places .up m e)))
    | _ => coordinateText v
  else coordinateText v

/-- Why a number of places cannot be had. -/
inductive PlacesError where
  /-- More digits than can be computed with. -/
  | precision
  /-- Before the greatest exponent. -/
  | overflow
  deriving DecidableEq, Repr

/-- How many digits a rounded number may have. -/
def maxPrecision : Nat := 28

/-- The most places that an exponent can express. -/
def maxPlaces : Int := 1000026

/-- Units of more than these are beyond the greatest exponent. -/
def maxUnit : Int := 999999

/-- A shift of the point by more than this is refused. -/
def maxShift : Int := 2000054

/-- Whether a double rounded to some places has too many digits. -/
def isTooPrecise (places : Int) (v : Float) : Bool :=
  match Binary64.ofFloat v with
  | .finite _ m e => m != 0 && Nat.pow 10 maxPrecision ≤ toPlaces places .up m e
  | _ => false

/-- A fixed number of places, if they can be computed with. -/
def toFixed (places : Int) (v : Float) : Except PlacesError String :=
  if !(v.abs < fixedLimit) then .ok (coordinateText v)
  else if maxShift < places ∨ places < -maxShift then .error .precision
  else if places < -maxUnit then .error .overflow
  else
    let places := min places maxPlaces
    if isTooPrecise places v then .error .precision else .ok (placesText places v)

end Relief.Format
