import Relief.Number.Nearest
import Relief.Value

/-!
Data as text, and data as keys of a map.
-/
namespace Relief.Value

open Relief.Number Relief.Text

/-- Texts between parentheses, a single one with a comma. -/
def tupleText (texts : List String) : String :=
  match texts with
  | [s] => "(" ++ s ++ ",)"
  | _ => "(" ++ String.intercalate ", " texts ++ ")"

def braced (texts : List String) : String :=
  "\x7b" ++ String.intercalate ", " texts ++ "\x7d"

/-- A collection within itself. -/
def ellipsis : Value → String
  | list _ => "[...]"
  | map _ => "\x7b...\x7d"
  | tuple _ => "(...)"
  | set _ => "set(...)"
  | _ => "..."

mutual

/-- A value as it stands within others. -/
def code : Value → String
  | null => "None"
  | bool b => if b then "True" else "False"
  | int n => toString n
  | float v => generalText v
  | text s => quoted s
  | codes cs => quotedCodes cs
  | octets bytes => quotedOctets bytes
  | stamp _ c _ => c
  | list items => "[" ++ String.intercalate ", " (codeOfEach items) ++ "]"
  | tuple items => tupleText (codeOfEach items)
  | set [] => "set()"
  | set items => braced (codeOfEach items)
  | map entries => braced (entryCodes entries)
  | orderedMap [] => "ordereddict()"
  | orderedMap entries => "ordereddict(" ++ braced (entryCodes entries) ++ ")"
  | again v => v.ellipsis

def codeOfEach : List Value → List String
  | [] => []
  | v :: vs => v.code :: codeOfEach vs

def entryCodes : List (Value × Value) → List String
  | [] => []
  | (k, v) :: es => (k.code ++ ": " ++ v.code) :: entryCodes es

end

/-- A value by itself. A text is written as it is. -/
def plainText : Value → String
  | text s => s
  | stamp s _ _ => s
  | v => v.code

/-- Whether a whole number has few enough digits to be written. -/
def isShort (n : Int) : Bool :=
  n.natAbs < Nat.pow 10 maxDigits

mutual

/-- Whether a value can be written: all whole numbers in it are short. -/
def isWritable : Value → Bool
  | int n => isShort n
  | list items | tuple items | set items => areWritable items
  | map entries | orderedMap entries => entriesAreWritable entries
  | _ => true

def areWritable : List Value → Bool
  | [] => true
  | v :: vs => v.isWritable && areWritable vs

def entriesAreWritable : List (Value × Value) → Bool
  | [] => true
  | (k, v) :: es => k.isWritable && v.isWritable && entriesAreWritable es

end

mutual

/-- A value in which collections that stand within themselves are seen from inside. -/
def opened : Value → Value
  | list items => list (openedItems items)
  | map entries => map (openedEntries entries)
  | orderedMap entries => orderedMap (openedEntries entries)
  | again v => v
  | v => v

def openedItems : List Value → List Value
  | [] => []
  | v :: vs => v.opened :: openedItems vs

def openedEntries : List (Value × Value) → List (Value × Value)
  | [] => []
  | (k, v) :: es => (k, v.opened) :: openedEntries es

end

/-! ### Keys -/

/-- A value as it is as a key. -/
def asKey : Value → Value
  | list items | again (list items) => tuple items
  | v => v

mutual

/-- Whether a value can be a key: no collection that may change, nor one with such. -/
def isFixed : Value → Bool
  | list _ | set _ | map _ | orderedMap _ | again _ => false
  | tuple items => areFixed items
  | _ => true

def areFixed : List Value → Bool
  | [] => true
  | v :: vs => v.isFixed && areFixed vs

end

/-- The number that a value stands for as a key, if it is whole. -/
def keyInt? : Value → Option Int
  | bool b => some (if b then 1 else 0)
  | int n => some n
  | float v => wholeInt? v
  | _ => none

mutual

/-- Whether two values are the same key. A number is the same however it is written, and so is an
instant, whatever the zone. -/
def sameKey : Value → Value → Bool
  | null, null => true
  | text s, text t => s == t
  | codes cs, codes ds => cs == ds
  | octets bs, octets cs => bs == cs
  | stamp _ _ (some i), stamp _ _ (some j) => i == j
  | stamp _ c none, stamp _ d none => c == d
  | tuple vs, tuple ws => sameKeys vs ws
  | float v, float w => v == w || (v.isNaN && w.isNaN)
  | v, w =>
    match keyInt? v, keyInt? w with
    | some n, some m => n == m
    | _, _ => false

def sameKeys : List Value → List Value → Bool
  | [], [] => true
  | v :: vs, w :: ws => sameKey v w && sameKeys vs ws
  | _, _ => false

end

/-- A map with one more entry. A key that is there keeps its place and gets the new value. -/
def insert (entries : List (Value × Value)) (key v : Value) : List (Value × Value) :=
  if entries.any fun e => e.1.sameKey key then
    entries.map fun e => if e.1.sameKey key then (e.1, v) else e
  else entries ++ [(key, v)]

/-- Entries of which later ones replace earlier ones. -/
def lastEntries (entries : List (Value × Value)) : List (Value × Value) :=
  entries.foldl (fun es (k, v) => insert es k v) []

end Relief.Value
