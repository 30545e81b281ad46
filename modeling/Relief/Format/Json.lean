import Relief.Number.Layout
import Relief.Text.Quoted

/-!
JSON texts, indented or compact.
-/
namespace Relief.Format

open Relief.Number Relief.Text

inductive Json where
  | null
  | bool (b : Bool)
  | int (n : Int)
  | float (v : Float)
  /-- A number with a fixed number of places. -/
  | fixed (places : Nat) (v : Float)
  | text (s : String)
  | list (items : List Json)
  | object (members : List (String × Json))

namespace Json

mutual

/-- Whether all numbers are finite. -/
def isFinite : Json → Bool
  | float v => v.isFinite
  | fixed _ v => v.isFinite
  | list items => areFinite items
  | object members => haveFinite members
  | _ => true

def areFinite : List Json → Bool
  | [] => true
  | v :: vs => v.isFinite && areFinite vs

def haveFinite : List (String × Json) → Bool
  | [] => true
  | (_, v) :: ms => v.isFinite && haveFinite ms

end

/-- How a text is written. -/
structure Style where
  /-- How far each level is indented, or none for one line. -/
  indent : Option Nat
  /-- Whether characters beyond ASCII are escaped. -/
  asciiOnly : Bool

def spaced : Style := ⟨some 2, true⟩
def compact : Style := ⟨none, true⟩

/-- The two words of a character beyond sixteen bits. -/
def surrogates (n : Nat) : List Nat :=
  [0xD800 + (n - 0x10000) / 0x400, 0xDC00 + (n - 0x10000) % 0x400]

def escapeWord (n : Nat) : List Char :=
  '\\' :: 'u' :: hex 4 n

def escapeChar (asciiOnly : Bool) (c : Char) : List Char :=
  match c with
  | '"' => ['\\', '"']
  | '\\' => ['\\', '\\']
  | '\n' => ['\\', 'n']
  | '\r' => ['\\', 'r']
  | '\t' => ['\\', 't']
  | '\x08' => ['\\', 'b']
  | '\x0c' => ['\\', 'f']
  | c =>
    let n := c.toNat
    if n < 0x20 then escapeWord n
    else if n < 0x7f || !asciiOnly then [c]
    else if n < 0x10000 then escapeWord n
    else (surrogates n).flatMap escapeWord

def textChars (asciiOnly : Bool) (s : String) : List Char :=
  '"' :: s.toList.flatMap (escapeChar asciiOnly) ++ ['"']

/-- Doubles in the general form. -/
def float64 : Layout := { general with nan := "NaN", infinity := "Infinity" }

/-- A line break and the blanks of a level, unless all is on one line. -/
def lineBreak (style : Style) (level : Nat) : List Char :=
  match style.indent with
  | some n => '\n' :: List.replicate (n * level) ' '
  | none => []

def afterColon (style : Style) : List Char :=
  if style.indent.isSome then [':', ' '] else [':']

/-- Parts between two brackets, each on a line of its own. -/
def bracketed (style : Style) (level : Nat) (opening closing : Char) (parts : List (List Char)) :
    List Char :=
  if parts.isEmpty then [opening, closing]
  else
    opening :: lineBreak style (level + 1)
      ++ List.intercalate (',' :: lineBreak style (level + 1)) parts
      ++ lineBreak style level ++ [closing]

mutual

def chars (style : Style) (level : Nat) : Json → List Char
  | null => "null".toList
  | bool b => if b then "true".toList else "false".toList
  | int n => (toString n).toList
  | float v => (float64.print v).toList
  | fixed places v => (fixedText places v).toList
  | text s => textChars style.asciiOnly s
  | list items => bracketed style level '[' ']' (itemChars style (level + 1) items)
  | object members => bracketed style level '\x7b' '\x7d' (memberChars style (level + 1) members)

def itemChars (style : Style) (level : Nat) : List Json → List (List Char)
  | [] => []
  | v :: vs => chars style level v :: itemChars style level vs

def memberChars (style : Style) (level : Nat) : List (String × Json) → List (List Char)
  | [] => []
  | (name, v) :: ms =>
    (textChars style.asciiOnly name ++ afterColon style ++ chars style level v)
      :: memberChars style level ms

end

def print (style : Style) (v : Json) : String :=
  String.ofList (v.chars style 0)

end Json

end Relief.Format
