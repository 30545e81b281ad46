import Relief.Shorthand.Names
import Relief.Text.Digit

/-!
The second stage of shorthand: products without a sign. Each of six rules looks at the gap between
two neighbouring characters and puts a `*` there if it matches.
-/
namespace Relief.Shorthand

open Relief.Text

/-- A rule sees the characters before a gap, the nearest first, and those after it. -/
abbrev GapRule := (before after : List Char) → Bool

/-- Letters that belong to a name when they stand before a variable. -/
def isNameLetter (c : Char) : Bool :=
  isAsciiLetter c && c != 'x' && c != 'y'

def isVariable (c : Char) : Bool :=
  c == 'x' || c == 'y'

def endsInDigit (before : List Char) : Bool :=
  before.head?.any isDigit

/-- A variable that no letter precedes but another variable. -/
def endsInVariable : List Char → Bool
  | [] => false
  | c :: before => isVariable c && !before.head?.any isNameLetter

/-- `1e5`, `2e-3`: the exponent of a number. -/
def startsExponent : List Char → Bool
  | c :: d :: _ => (c == 'e' || c == 'E') && (d == '+' || d == '-' || isDigit d)
  | _ => false

def startsCall (after : List Char) : Bool :=
  spellings.any fun (spelling, _) =>
    match afterName? spelling.toList after with
    | some ('(' :: _) => true
    | _ => false

def digitThenLetter : GapRule := fun before after =>
  endsInDigit before && !startsExponent after && after.head?.any isAsciiLetter

def digitThenParen : GapRule := fun before after =>
  endsInDigit before && after.head? == some '('

def parenThenFactor : GapRule := fun before after =>
  before.head? == some ')' && after.head?.any fun c => c == '(' || isDigit c || isAsciiLetter c

def variableThenParen : GapRule := fun before after =>
  endsInVariable before && after.head? == some '('

def variableThenCall : GapRule := fun before after =>
  endsInVariable before && startsCall after

def variableThenVariable : GapRule := fun before after =>
  before.head?.any isVariable && after.head?.any isVariable

def gapRules : List GapRule :=
  [digitThenLetter, digitThenParen, parenThenFactor, variableThenParen, variableThenCall,
   variableThenVariable]

/-- A `*` in every gap that matches. -/
def insertAt (rule : GapRule) : (before : List Char) → List Char → List Char
  | _, [] => []
  | before, c :: cs =>
    if rule before (c :: cs) then '*' :: c :: insertAt rule (c :: before) cs
    else c :: insertAt rule (c :: before) cs

/-- The rules one after the other, each on the outcome of the one before. -/
def insertProducts (cs : List Char) : List Char :=
  gapRules.foldl (fun cs rule => insertAt rule [] cs) cs

end Relief.Shorthand
