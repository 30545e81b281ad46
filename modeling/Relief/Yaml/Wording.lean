import Relief.Text.Quoted

/-!
Texts by code points. An escape may name half of a pair of surrogates, which is no character.
-/
namespace Relief.Yaml

open Relief.Text

/-- The text of a scalar. -/
inductive Wording where
  | text (s : String)
  /-- Code points of which some are no characters. -/
  | codes (cs : List Nat)
  deriving DecidableEq, Repr

namespace Wording

def ofChars (cs : List Char) : Wording :=
  text (String.ofList cs)

def ofCodes (cs : List Nat) : Wording :=
  match cs.mapM char? with
  | some chars => ofChars chars
  | none => codes cs

def replacement : Char := '\ufffd'

/-- The text, with another character for what is none. -/
def string : Wording → String
  | text s => s
  | codes cs => String.ofList (cs.map fun n => (char? n).getD replacement)

end Wording

end Relief.Yaml
