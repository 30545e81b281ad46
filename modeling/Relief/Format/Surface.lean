import Relief.Mesh.Basic

/-!
Surfaces as files describe them.
-/
namespace Relief.Format

/-- A surface with its equation. -/
structure Surface where
  id : Nat
  expression : String
  color : String
  mesh : Mesh Float

inductive ExportError where
  | nothing
  /-- The first part of a scene's file is not its description. -/
  | malformed
  | cannotWrite (path reason : String)
  deriving DecidableEq, Repr

def ExportError.message : ExportError → String
  | nothing => "Nothing to export: create at least one surface first"
  | malformed => "Malformed GLB: first chunk is not JSON"
  | cannotWrite path reason => "Cannot write " ++ path ++ ": " ++ reason

/-- Surfaces, of which there must be one. -/
def require (surfaces : List Surface) : Except ExportError (List Surface) :=
  if surfaces.isEmpty then .error .nothing else .ok surfaces

/-- The lines of a file. Every line ends with a line break. -/
def ofLines (lines : List String) : String :=
  String.join (lines.map (· ++ "\n"))

end Relief.Format
