/-!
Paths: names between slashes.
-/
namespace Relief

structure Path where
  /-- The slashes that an absolute path begins with. -/
  root : String
  names : List String
  deriving DecidableEq, Repr

namespace Path

/-- Two slashes at the start are kept, more are as one. -/
def rootOf (cs : List Char) : String :=
  match (cs.takeWhile (· == '/')).length with
  | 0 => ""
  | 2 => "//"
  | _ => "/"

/-- The path of a text. Empty names and single dots mean nothing. -/
def ofText (text : String) : Path :=
  let names := (text.toList.splitOn '/').map String.ofList
  ⟨rootOf text.toList, names.filter fun name => name != "" && name != "."⟩

def text (p : Path) : String :=
  let text := p.root ++ String.intercalate "/" p.names
  if text.isEmpty then "." else text

/-- The last name. -/
def name (p : Path) : String :=
  p.names.getLast?.getD ""

/-- What follows the last point of the last name, unless the point begins or ends the name. -/
def suffix (p : Path) : String :=
  let reversed := p.name.toList.reverse
  let suffix := reversed.takeWhile (· != '.')
  if suffix.isEmpty || reversed.length ≤ suffix.length + 1 then ""
  else String.ofList suffix.reverse

end Path

end Relief
