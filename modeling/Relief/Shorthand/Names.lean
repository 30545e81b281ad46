import Relief.Text.Ranges
import Relief.Text.WordChar

/-!
The glyphs and names that shorthand knows. In its first stage mathematical glyphs become ASCII, and runs of
blanks single spaces. Functions are known in any letter case, constants in lower case only.
-/
namespace Relief.Shorthand

open Relief.Text

/-- Glyphs and what they stand for. The constant is parenthesized, so that it still multiplies what
stands next to it. -/
def glyphs : List (Char × String) :=
  [('π', "(pi)"), ('√', "sqrt"), ('×', "*"), ('·', "*"), ('÷', "/"), ('−', "-"),
   ('⁰', "^0"), ('¹', "^1"), ('²', "^2"), ('³', "^3"), ('⁴', "^4"),
   ('⁵', "^5"), ('⁶', "^6"), ('⁷', "^7"), ('⁸', "^8"), ('⁹', "^9")]

def spellOut (c : Char) : List Char :=
  match glyphs.lookup c with
  | some text => text.toList
  | none => [c]

def normalize (cs : List Char) : List Char :=
  trim (collapse (cs.flatMap spellOut))

/-- The spellings of the functions, each with its name. No spelling comes before a longer one. -/
def spellings : List (String × String) :=
  [("floor", "floor"), ("round", "round"), ("asin", "asin"), ("acos", "acos"), ("atan", "atan"),
   ("sinh", "sinh"), ("cosh", "cosh"), ("tanh", "tanh"), ("sqrt", "sqrt"), ("ceil", "ceil"),
   ("sin", "sin"), ("cos", "cos"), ("tan", "tan"), ("exp", "exp"), ("log", "log"),
   ("abs", "abs"), ("max", "max"), ("min", "min"), ("ln", "log")]

def constantNames : List String := ["pi", "e"]

/-- What a qualified name begins with. -/
def qualifier : String := "math."

/-- Whether a character is a form of a lower-case letter. Two letters have forms beyond ASCII. -/
def isFormOf (letter c : Char) : Bool :=
  c == letter || (isAsciiLetter c && c.toLower == letter)
    || (letter == 'i' && (c == 'İ' || c == 'ı')) || (letter == 's' && c == 'ſ')

/-- What follows a name at the start of a text, in any letter case. -/
def afterName? : (name : List Char) → List Char → Option (List Char)
  | [], cs => some cs
  | _ :: _, [] => none
  | letter :: name, c :: cs => if isFormOf letter c then afterName? name cs else none

end Relief.Shorthand
