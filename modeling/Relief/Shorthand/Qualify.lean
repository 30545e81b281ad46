import Relief.Shorthand.Names

/-!
The third stage of shorthand: the names of functions and constants are qualified, where they stand
for themselves. A name that touches a word character or a dot is part of something else.
-/
namespace Relief.Shorthand

open Relief.Text

/-- A function name with a letter whose lower case is not ASCII. It is recognized but unknown. -/
structure ForeignSpelling where
  word : String
  deriving DecidableEq, Repr

/-- Characters that continue a name. -/
def continuesName (c : Char) : Bool :=
  isWordChar c || c == '.'

/-- A word at the start of a text: its length and its replacement. -/
abbrev WordRule := List Char → Except ForeignSpelling (Option (Nat × List Char))

/-- Replaces the words that a rule finds where no name continues. The characters of a word that has
been replaced are skipped. -/
def replaceWords (rule : WordRule) :
    (inside : Bool) → (skip : Nat) → List Char → Except ForeignSpelling (List Char)
  | _, _, [] => .ok []
  | _, skip + 1, c :: cs => replaceWords rule (continuesName c) skip cs
  | inside, 0, c :: cs => do
    match ← if inside then .ok none else rule (c :: cs) with
    | some (length, replacement) =>
      return replacement ++ (← replaceWords rule (continuesName c) (length - 1) cs)
    | none => return c :: (← replaceWords rule (continuesName c) 0 cs)

/-- Whether no name continues here. -/
def endsName (cs : List Char) : Bool :=
  !cs.head?.any continuesName

def qualified (name : String) : List Char :=
  (qualifier ++ name).toList

def functionRule : WordRule := fun cs =>
  let found := spellings.find? fun (spelling, _) =>
    (afterName? spelling.toList cs).any endsName
  match found with
  | none => .ok none
  | some (spelling, name) =>
    let word := cs.take spelling.length
    if word.all isAsciiLetter then .ok (some (spelling.length, qualified name))
    else .error ⟨String.ofList word⟩

def constantRule (name : String) : WordRule := fun cs =>
  if name.toList.isPrefixOf cs && endsName (cs.drop name.length) then
    .ok (some (name.length, qualified name))
  else .ok none

def qualifyNames (cs : List Char) : Except ForeignSpelling (List Char) := do
  let cs ← replaceWords functionRule false 0 cs
  constantNames.foldlM (fun cs name => replaceWords (constantRule name) false 0 cs) cs

end Relief.Shorthand
