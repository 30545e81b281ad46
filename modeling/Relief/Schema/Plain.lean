import Relief.Schema.Issue
import Relief.Color

/-!
Texts, truth values and numbers read from data. Numbers and truth values may be written as texts, and
one may stand for the other where nothing is lost.
-/
namespace Relief.Schema

open Relief.Number Relief.Text

/-- Data that is written in characters, by what it stands for as a text. The first problem is that of
octets that are none. -/
def readWords {α : Type} (octetProblem : Problem) (read : String → Except (List Issue) α)
    (others : Read α) : Read α
  | .text s => read s
  | .codes cs =>
    match Value.textOfCodes? cs with
    | some s => read s
    | none => refuse .notUnicode
  | .octets bytes =>
    match Value.textOfOctets? bytes with
    | some s => read s
    | none => refuse octetProblem
  | v => others v

def readText : Read String :=
  readWords .notUnicode .ok fun _ => refuse .textType

def trueWords : List String := ["1", "on", "t", "true", "y", "yes"]
def falseWords : List String := ["0", "off", "f", "false", "n", "no"]

def readBoolText (s : String) : Except (List Issue) Bool :=
  if trueWords.contains s.toLower then .ok true
  else if falseWords.contains s.toLower then .ok false
  else refuse .boolText

def readBool : Read Bool :=
  readWords .boolText readBoolText fun
    | .bool b => .ok b
    | .int n => if n = 1 then .ok true else if n = 0 then .ok false else refuse .boolText
    | .float v =>
      if v == 1.0 then .ok true
      else if v == 0.0 then .ok false
      else if (wholeInt? v).isSome then refuse .boolText
      else refuse .boolType
    | _ => refuse .boolType

/-- Blanks around a numeral. The four separators of information are none. -/
def isMargin (c : Char) : Bool :=
  isBlank c && !('\x1c' ≤ c && c ≤ '\x1f')

def trimMargins (cs : List Char) : List Char :=
  ((cs.dropWhile isMargin).reverse.dropWhile isMargin).reverse

/-- Without underscores, each of which stands alone and inside the text. -/
def dropUnderscores? (cs : List Char) : Option (List Char) :=
  let parts := cs.splitOn '_'
  if parts.all (!·.isEmpty) then some parts.flatten else none

def startsNumber (c : Char) : Bool :=
  c == '-' || ('1' ≤ c && c ≤ '9')

/-- A numeral after a zero, without further ones and the underscores among them. The last of these is
left before a point and if nothing else is. -/
def afterZero? (last : Char) : List Char → Option (List Char)
  | [] => some [last]
  | c :: cs =>
    if c == '0' || c == '_' then afterZero? c cs
    else if startsNumber c then some (c :: cs)
    else if c == '.' then some (last :: c :: cs)
    else none

/-- A numeral without the zeros that it begins with. -/
def dropLeadingZeros? : List Char → Option (List Char)
  | [] => none
  | c :: cs =>
    if c == '0' then afterZero? c cs else if startsNumber c then some (c :: cs) else none

/-- Without a point that only zeros follow, at least one. -/
def dropZeroFraction (cs : List Char) : List Char :=
  let whole := cs.takeWhile (· != '.')
  let fraction := cs.drop (whole.length + 1)
  if !fraction.isEmpty && fraction.all (· == '0') then whole else cs

def dropPlus (cs : List Char) : List Char :=
  match cs with
  | '+' :: '-' :: _ => cs
  | '+' :: rest => rest
  | _ => cs

/-- A whole number of ASCII digits, of which the first is no zero unless it is the only one. -/
def digits? (cs : List Char) : Option Int :=
  let (negative, ds) := match cs with
    | '-' :: ds => (true, ds)
    | _ => (false, cs)
  if ds.isEmpty || !ds.all Char.isDigit || (ds.head? == some '0' && ds.length ≠ 1)
      || maxDigits < cs.length then
    none
  else some (withSign negative (digitsIn 10 (ds.filterMap (digitIn? 10))))

/-- A whole number, possibly with a fraction of zeros. -/
def readIntText (s : String) : Except (List Issue) Int :=
  let found := (dropLeadingZeros? (dropPlus (trimMargins s.toList))).bind fun cs =>
    let cs := dropZeroFraction cs
    digits? ((dropUnderscores? cs).getD cs)
  match found with
  | some n => .ok n
  | none => refuse .intText

/-- From here on a double stands for no whole number. -/
def wordLimit : Float := 9223372036854775808.0

def readInt : Read Int :=
  readWords .intText readIntText fun
    | .bool b => .ok (if b then 1 else 0)
    | .int n => .ok n
    | .float v =>
      if !v.isFinite then refuse .notFinite
      else match wholeInt? v with
        | none => refuse .intFraction
        | some n => if v.abs < wordLimit then .ok n else refuse .intSize
    | _ => refuse .intType

/-- A whole number of at least one. -/
def readCount : Read { n : Nat // 0 < n } := fun v => do
  let n ← readInt v
  if h : 0 < n.toNat then return ⟨n.toNat, h⟩ else refuse .belowMinimum

def infinityWords : List String := ["inf", "infinity"]

def decimalText? (cs : List Char) : Option Float :=
  let (negative, rest) := signed cs
  let word := (String.ofList rest).toLower
  if infinityWords.contains word then some (if negative then -1.0 / 0.0 else 1.0 / 0.0)
  else if word == "nan" then some (0.0 / 0.0)
  else if rest.contains '_' then none
  else (decimalPart? rest).map (·.toFloat negative)

def readFloatText (s : String) : Except (List Issue) Float :=
  let found := (decimalText? (trimMargins s.toList)).orElse fun _ =>
    (dropUnderscores? s.toList).bind decimalText?
  match found with
  | some v => .ok v
  | none => refuse .floatText

def readFloat : Read Float :=
  readWords .floatText readFloatText fun
    | .bool b => .ok (if b then 1.0 else 0.0)
    | .int n =>
      match floatOfInt? n with
      | some v => .ok v
      | none => refuse .floatType
    | .float v => .ok v
    | _ => refuse .floatType

def readMode : Read Color.Mode
  | .text s =>
    match Color.Mode.ofName? s with
    | some mode => .ok mode
    | none => refuse .unknownChoice
  | .codes cs => refuse (if (Value.textOfCodes? cs).isSome then .unknownChoice else .notUnicode)
  | _ => refuse .unknownChoice

def badColorMessage (text : String) : String :=
  "color must be a '#rrggbb' hex string, got " ++ quoted text

def readColorText (s : String) : Except (List Issue) String :=
  if Color.isHexText s then .ok s.toLower else refuse (.badValue (badColorMessage s))

/-- A color as its text in lower case, or none. -/
def readColor : Read (Option String)
  | .null => .ok none
  | v => (readText v).bind fun s => (readColorText s).map some

end Relief.Schema
