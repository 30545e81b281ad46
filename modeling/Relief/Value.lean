import Relief.Number.Layout
import Relief.Number.Numeral
import Relief.Text.Quoted

/-!
Data of no fixed type, as documents and requests hold them.
-/
namespace Relief

open Relief.Number Relief.Text

inductive Value where
  | null
  | bool (b : Bool)
  | int (n : Int)
  | float (v : Float)
  | text (s : String)
  /-- A text by code points, some of which are no characters. -/
  | codes (cs : List Nat)
  | octets (bytes : List UInt8)
  /-- A date or time, which only has a text, and a longer one inside other values. If it has a zone,
  its instant tells it from others. -/
  | stamp (text code : String) (instant : Option Int)
  | list (items : List Value)
  /-- A list that does not change, such as one that is a key. -/
  | tuple (items : List Value)
  | set (items : List Value)
  | map (entries : List (Value × Value))
  /-- A map that is made from a list of pairs. -/
  | orderedMap (entries : List (Value × Value))
  /-- A collection that stands within itself. -/
  | again (v : Value)
  deriving Inhabited

namespace Value

/-- Why a value is not a number. -/
inductive FloatError where
  | wrongType (name : String)
  | malformed (text : String)
  | tooLarge
  deriving DecidableEq, Repr

def FloatError.message : FloatError → String
  | wrongType name =>
    "float() argument must be a string or a real number, not " ++ quoted name
  | malformed s => "could not convert string to float: " ++ quoted s
  | tooLarge => "int too large to convert to float"

/-- The text that octets are, if they are one. -/
def textOfOctets? (bytes : List UInt8) : Option String :=
  String.fromUTF8? ⟨bytes.toArray⟩

/-- The text of code units, of which two may be halves of a pair. -/
def textOfCodes? (cs : List Nat) : Option String :=
  (join cs).map String.ofList
where
  join : List Nat → Option (List Char)
    | [] => some []
    | [n] => (char? n).map ([·])
    | n :: m :: rest =>
      if 0xD800 ≤ n && n < 0xDC00 && 0xDC00 ≤ m && m < 0xE000 then do
        let c ← char? (0x10000 + (n - 0xD800) * 0x400 + (m - 0xDC00))
        return c :: (← join rest)
      else do
        let c ← char? n
        return c :: (← join (m :: rest))

/-- What the type of a value is called. -/
def typeName : Value → String
  | null => "NoneType"
  | bool _ => "bool"
  | int _ => "int"
  | float _ => "float"
  | text _ | codes _ => "str"
  | octets _ => "bytes"
  | stamp .. => "datetime.date"
  | list _ => "list"
  | tuple _ => "tuple"
  | set _ => "set"
  | map _ => "dict"
  | orderedMap _ => "ordereddict"
  | again v => v.typeName

/-- A value as a double: numbers, truth values and numerals. -/
def toFloat : Value → Except FloatError Float
  | bool b => .ok (if b then 1.0 else 0.0)
  | int n => match floatOfInt? n with
    | some v => .ok v
    | none => .error .tooLarge
  | float v => .ok v
  | text s => match readFloat? s with
    | some v => .ok v
    | none => .error (.malformed s)
  | v => .error (.wrongType v.typeName)

end Value

end Relief
