import Relief.Number.Layout
import Relief.Number.Numeral

/-!
Doubles and whole numbers.
-/
namespace Relief.Number

/-- The whole number nearest to a double, of two as near the even one. -/
def nearestInt? (v : Float) : Option Int :=
  match Binary64.ofFloat v with
  | .finite negative m e => some (withSign negative (toPlaces 0 .toEven m e))
  | _ => none

/-- The whole number that a double is. -/
def wholeInt? (v : Float) : Option Int :=
  if (Binary64.ofFloat v).isWhole then nearestInt? v else none

end Relief.Number
