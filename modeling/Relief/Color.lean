import Relief.Field
import Relief.Number.Nearest
import Relief.Scalar

/-!
Colors as three shares of red, green and blue, and their texts `#rrggbb`.
-/
namespace Relief

open Relief.Number Relief.Text

structure Color (α : Type) where
  red : α
  green : α
  blue : α
  deriving DecidableEq, Repr

namespace Color

/-- Why data is no color. -/
inductive Error where
  | malformed (text : String)
  | wrongShape (shape : List Nat)
  | notNumbers (e : Field.ReadError)

/-- A shape as its sizes in parentheses. A single size keeps its comma. -/
def shapeText : List Nat → String
  | [n] => "(" ++ toString n ++ ",)"
  | ns => "(" ++ String.intercalate ", " (ns.map toString) ++ ")"

/-- What is wrong, if words are needed. -/
def Error.message? : Error → Option String
  | malformed text => some ("Expected a '#rrggbb' color, got " ++ quoted text)
  | wrongShape shape => some ("Expected an RGB triple, got shape " ++ shapeText shape)
  | notNumbers _ => none

variable {α β : Type}

def map (f : α → β) (c : Color α) : Color β :=
  ⟨f c.red, f c.green, f c.blue⟩

def toList (c : Color α) : List α :=
  [c.red, c.green, c.blue]

/-- The greatest number of a channel. -/
def fullChannel : Float := 255.0

/-- The three numbers of a text: six characters after any number of marks, two to a channel. -/
def channels? (text : String) : Option (Color Int) :=
  match text.toList.dropWhile (· == '#') with
  | [a, b, c, d, e, f] => do
    let red ← readBits? 16 (String.ofList [a, b])
    let green ← readBits? 16 (String.ofList [c, d])
    let blue ← readBits? 16 (String.ofList [e, f])
    return ⟨red, green, blue⟩
  | _ => none

def ofText (text : String) : Except Error (Color Float) :=
  match channels? text with
  | some c => .ok (c.map fun n => Float.ofInt n / fullChannel)
  | none => .error (.malformed text)

/-- A color given as a text or as three shares. Shares outside the unit interval are clamped. -/
def ofValue : Value → Except Error (Color Float)
  | .text text => ofText text
  | v =>
    match Field.ofValue v with
    | .error e => .error (.notNumbers e)
    | .ok f =>
      match f.shape, f.values.toList with
      | [3], [r, g, b] => .ok (map (Scalar.clamp 0.0 1.0) ⟨r, g, b⟩)
      | shape, _ => .error (.wrongShape shape)

def leastWord : Int := -9223372036854775808

/-- The number of a share. What is not finite counts as the least word of 64 bits. -/
def channelOf (share : Float) : Int :=
  (nearestInt? (share * fullChannel)).getD leastWord

/-- Two characters of base sixteen, sign included. -/
def channelText (n : Int) : List Char :=
  if n < 0 then '-' :: Nat.toDigits 16 n.natAbs else padLeft 2 (Nat.toDigits 16 n.natAbs)

/-- The text `#rrggbb` of a color. -/
def text (c : Color Float) : String :=
  String.ofList ('#' :: c.toList.flatMap fun v => channelText (channelOf v))

def isHexDigit (c : Char) : Bool :=
  (digitIn? 16 c).isSome

/-- Whether a text is a mark and six digits. A line break may follow. -/
def isHexText (text : String) : Bool :=
  match text.toList with
  | '#' :: cs =>
    (cs.take 6).length == 6 && (cs.take 6).all isHexDigit
      && (cs.drop 6 == [] || cs.drop 6 == ['\n'])
  | _ => false

/-- How the vertices of a surface are colored. -/
inductive Mode where
  | solid
  | height
  | slope
  | rainbow
  | coolWarm
  deriving DecidableEq, Repr

namespace Mode

def all : List Mode := [solid, height, slope, rainbow, coolWarm]

def name : Mode → String
  | solid => "solid"
  | height => "height"
  | slope => "slope"
  | rainbow => "rainbow"
  | coolWarm => "cool-warm"

def ofName? (name : String) : Option Mode :=
  all.find? (·.name == name)

def unknownMessage (name : String) : String :=
  "Unknown color mode: " ++ quoted name ++ " (known: " ++ quotedList (all.map Mode.name) ++ ")"

end Mode

end Color

end Relief
