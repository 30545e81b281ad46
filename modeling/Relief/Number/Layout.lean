import Relief.Number.Decimal

/-!
Texts of doubles. The digits are chosen first, by length, by significance or by place, and then
laid out around the decimal point.
-/
namespace Relief.Number

/-- How chosen digits are laid out. -/
structure Layout where
  /-- The point is written in its place if it stands from `lowest` to `highest` digits after the
  first; beyond that an exponent is written. -/
  lowest : Int
  highest : Int
  /-- What follows a number without a fraction. -/
  wholeMark : String
  /-- The least number of digits of an exponent. -/
  exponentWidth : Nat
  /-- Whether a zero may have a sign. -/
  signedZero : Bool
  nan : String
  infinity : String

def zeroDigits (n : Nat) : List Char :=
  List.replicate n '0'

/-- Digits padded with zeros in front. -/
def padLeft (width : Nat) (ds : List Char) : List Char :=
  zeroDigits (width - ds.length) ++ ds

def sign (negative : Bool) (ds : List Char) : List Char :=
  if negative then '-' :: ds else ds

namespace Layout

/-- An exponent with its sign. -/
def exponent (l : Layout) (e : Int) : List Char :=
  (if e < 0 then '-' else '+') :: padLeft l.exponentWidth (Nat.toDigits 10 e.natAbs)

/-- One digit, the point, and the rest. -/
def scientific (l : Layout) (ds : List Char) (point : Int) : List Char :=
  let fraction := if ds.length ≤ 1 then [] else '.' :: ds.drop 1
  ds.take 1 ++ fraction ++ 'e' :: l.exponent (point - 1)

/-- The point in its place. -/
def positional (l : Layout) (ds : List Char) (point : Int) : List Char :=
  if point ≤ 0 then '0' :: '.' :: zeroDigits point.natAbs ++ ds
  else if ds.length ≤ point.toNat then
    ds ++ zeroDigits (point.toNat - ds.length) ++ l.wholeMark.toList
  else ds.take point.toNat ++ '.' :: ds.drop point.toNat

def magnitude (l : Layout) (d : Decimal) : List Char :=
  if l.lowest ≤ d.point ∧ d.point ≤ l.highest then l.positional d.digits d.point
  else l.scientific d.digits d.point

/-- A double in the digits that `choose` takes for a finite one. -/
def printWith (l : Layout) (choose : Nat → Int → Decimal) (v : Float) : String :=
  match Binary64.ofFloat v with
  | .nan => l.nan
  | .infinite negative => String.ofList (sign negative l.infinity.toList)
  | .finite negative m e =>
    String.ofList (sign (negative && (l.signedZero || m != 0)) (l.magnitude (choose m e)))

/-- A double in its shortest digits. -/
def print (l : Layout) (v : Float) : String :=
  l.printWith shortest v

end Layout

/-- The exact magnitude rounded to `n` significant digits, ties to even. -/
def toSignificant (n : Nat) (significand : Nat) (exponent : Int) : Decimal :=
  if significand = 0 then ⟨0, 0⟩
  else
    let r := Binary64.ratio significand exponent
    let e := r.decimalMagnitude + 1 - n
    let c := (r.scale 10 (-e)).round .toEven
    if c = Nat.pow 10 n then ⟨Nat.pow 10 (n - 1), e + 1⟩ else ⟨c, e⟩

/-- The number of units of `10 ^ -places` nearest to the exact magnitude. -/
def toPlaces (places : Int) (tie : Tie) (significand : Nat) (exponent : Int) : Nat :=
  ((Binary64.ratio significand exponent).scale 10 places).round tie

/-- `units * 10 ^ -places` with exactly that many places, none if `places` is negative. -/
def layPlaces (places : Int) (units : Nat) : List Char :=
  match places with
  | .ofNat p =>
    let ds := padLeft (p + 1) (Nat.toDigits 10 units)
    let whole := ds.take (ds.length - p)
    if p = 0 then whole else whole ++ '.' :: ds.drop (ds.length - p)
  | .negSucc p =>
    if units = 0 then ['0'] else Nat.toDigits 10 units ++ zeroDigits (p + 1)

/-- The general form: the shortest digits, whole numbers marked as doubles, an exponent of at
least two digits below `1e-4` and from `1e16` on. -/
def general : Layout where
  lowest := -3
  highest := 16
  wholeMark := ".0"
  exponentWidth := 2
  signedZero := true
  nan := "nan"
  infinity := "inf"

def generalText (v : Float) : String :=
  general.print v

/-- Six significant digits without zeros at the end, an exponent below `1e-4` and from `1e6` on. -/
def sixDigits (v : Float) : String :=
  { general with highest := 6, wholeMark := "" }.printWith
    (fun m e => (toSignificant 6 m e).strip) v

/-- A fixed number of places, ties to even. The sign of a zero is kept. -/
def fixedText (places : Nat) (v : Float) : String :=
  match Binary64.ofFloat v with
  | .nan => "nan"
  | .infinite negative => String.ofList (sign negative "inf".toList)
  | .finite negative m e =>
    String.ofList (sign negative (layPlaces places (toPlaces places .toEven m e)))

/-- `digits` significant digits, always with an exponent. -/
def scientificText (digits : Nat) (v : Float) : String :=
  match Binary64.ofFloat v with
  | .nan => "nan"
  | .infinite negative => String.ofList (sign negative "inf".toList)
  | .finite negative m e =>
    let d := toSignificant digits m e
    let ds := d.digits ++ zeroDigits (digits - d.digits.length)
    String.ofList (sign negative (general.scientific ds d.point))

end Relief.Number
