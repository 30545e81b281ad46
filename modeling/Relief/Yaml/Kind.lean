import Relief.Number.Numeral
import Relief.Yaml.Cause
import Relief.Yaml.Stamp

/-!
What nodes stand for: the kind of a plain scalar is seen from its text, that of others from a tag.
-/
namespace Relief.Yaml

inductive Kind where
  | text
  /-- A number, in the form that a version gives it. -/
  | int (v : Version)
  | float (v : Version)
  | bool
  | null
  | stamp
  /-- Octets in base sixty-four. -/
  | octets
  | sequence
  | mapping
  /-- A sequence of pairs, each a mapping with one entry. -/
  | pairs
  /-- Pairs with different keys. -/
  | orderedMapping
  /-- A mapping of which only the keys matter. -/
  | set
  /-- The key of entries that are those of other mappings. -/
  | merge
  | value
  | unknown
  deriving DecidableEq, Repr

def boolWords (v : Version) : List String :=
  let words := ["true", "True", "TRUE", "false", "False", "FALSE"]
  match v with
  | .v12 => words
  | .v11 =>
    words ++ ["y", "Y", "yes", "Yes", "YES", "n", "N", "no", "No", "NO", "on", "On", "ON", "off",
      "Off", "OFF"]

def nullWords : List String := ["", "~", "null", "Null", "NULL"]
def infinityWords : List String := ["inf", "Inf", "INF"]
def nanWords : List String := ["nan", "NaN", "NAN"]

def isDigitOf (base : Nat) (c : Char) : Bool :=
  c == '_' || (Number.digitIn? base c).isSome

def isDigits (base : Nat) (cs : List Char) : Bool :=
  !cs.isEmpty && cs.all (isDigitOf base)

/-- A number of two digits, less than sixty. -/
def isSixtieth : List Char → Bool
  | [c] => c.isDigit
  | [b, c] => '0' ≤ b && b ≤ '5' && c.isDigit
  | _ => false

/-- Digits from `first` on, colons, and what is counted in sixtieths behind them. -/
def isSexagesimal (first : Char) (cs : List Char) : Bool :=
  match cs.splitOn ':' with
  | (c :: ds) :: part :: parts =>
    first ≤ c && c ≤ '9' && ds.all (isDigitOf 10) && (part :: parts).all isSixtieth
  | _ => false

/-- The base that a numeral begins with, and its digits. -/
def basePart : List Char → Nat × List Char
  | '0' :: 'b' :: cs => (2, cs)
  | '0' :: 'o' :: cs => (8, cs)
  | '0' :: 'x' :: cs => (16, cs)
  | cs => (10, cs)

def isInt (v : Version) (cs : List Char) : Bool :=
  let body := (Number.signed cs).2
  let (base, ds) := basePart body
  cs.head? != some '_' && match v, base with
    | .v12, _ => isDigits base ds
    | .v11, 8 => false
    | .v11, 10 =>
      isDigits 8 body || (isDigits 10 body && body.head? != some '0' && body.head? != some '_')
        || isSexagesimal '1' body
    | .v11, _ => isDigits base ds

def isExponent (signRequired : Bool) : List Char → Bool
  | [] => true
  | e :: cs =>
    let ds := (Number.signed cs).2
    (e == 'e' || e == 'E') && !(signRequired && ds.length == cs.length)
      && !ds.isEmpty && ds.all Char.isDigit

/-- A sign may stand before a point in the later version, and before a name of infinity. -/
def isFloat (v : Version) (cs : List Char) : Bool :=
  let body := (Number.signed cs).2
  let isSigned := body.length != cs.length
  let whole := body.takeWhile (isDigitOf 10)
  match whole.head?, body.drop whole.length with
  | some d, '.' :: rest => d != '_' && isExponent false (rest.dropWhile (isDigitOf 10))
  | some d, ':' :: _ =>
    d != '_' && v == .v11 && isSexagesimal '0' (body.takeWhile (· != '.')) && body.contains '.'
      && ((body.dropWhile (· != '.')).drop 1).all (isDigitOf 10)
  | some d, e :: rest => d != '_' && isExponent false (e :: rest)
  | none, '.' :: rest =>
    let fraction := rest.takeWhile (isDigitOf 10)
    (!fraction.isEmpty && isExponent true (rest.drop fraction.length) && !(isSigned && v == .v11))
      || infinityWords.contains (String.ofList rest)
      || (!isSigned && nanWords.contains (String.ofList rest))
  | _, _ => false

/-- Without a break at the end of a text that is not only that. -/
def dropLastBreak (cs : List Char) : List Char :=
  if cs.length ≠ 1 && cs.getLast? == some '\n' then cs.dropLast else cs

namespace Kind

/-- The kind of a scalar by its text. A break at its end does not count. -/
def ofPlain (v : Version) (s : String) : Kind :=
  let cs := dropLastBreak s.toList
  let s := String.ofList cs
  if (boolWords v).contains s then bool
  else if isFloat v cs then float v
  else if isInt v cs then int v
  else if s == "<<" then merge
  else if nullWords.contains s then null
  else if Stamp.isPlain cs then stamp
  else if s == "=" then value
  else if ["!", "&", "*"].contains s then unknown
  else text

/-- What the tags of the core schema begin with. -/
def coreTag : String := "tag:yaml.org,2002:"

/-- The tag that leaves the meaning of a node to the node. -/
def plainTag : String := "!"

def named (v : Version) : List (String × Kind) :=
  [("str", text), ("int", int v), ("float", float v), ("bool", bool), ("null", null),
    ("timestamp", stamp), ("binary", octets), ("seq", sequence), ("map", mapping), ("pairs", pairs),
    ("omap", orderedMapping), ("set", set), ("merge", merge), ("value", value)]

/-- The kind of a node that has one without its tag. -/
def ofTag (v : Version) (tag : Option String) (untagged : Kind) : Kind :=
  match tag with
  | none => untagged
  | some name =>
    if name == plainTag then untagged
    else match (named v).find? fun (suffix, _) => name == coreTag ++ suffix with
      | some (_, kind) => kind
      | none => unknown

def ofScalar (v : Version) (tag : Option String) (plain : Bool) (s : String) : Kind :=
  ofTag v tag (if plain || tag == some plainTag then ofPlain v s else text)

end Kind

end Relief.Yaml
