import Relief.Document
import Relief.Format.Json
import Relief.Workspace

/-!
Workspaces as documents say them: what is needed to make them again, and their text.
-/
namespace Relief.Workspace

open Relief.Format

/-- Adds the equations of a document to an empty workspace. -/
def makeFrom (spec : WorkspaceSpec) : Except Failure Unit × Workspace :=
  let addAll : Action Unit := spec.equations.forM fun e =>
    discard (add e.expression e.color e.visible)
  (addAll.run (empty spec.settings spec.colorMode)).run

/-- The workspace of a document. -/
def ofSpec (spec : WorkspaceSpec) : Except Failure Workspace :=
  match makeFrom spec with
  | (.ok (), w) => .ok w
  | (.error failure, _) => .error failure

/-- What a document says of an equation, if the color is one that documents may have. -/
def specOfEquation (e : Equation) : Except (List Schema.Issue) EquationSpec :=
  Schema.equationOfEntries
    [(.text "expression", .text e.expression), (.text "color", .text e.color),
      (.text "visible", .bool e.visible)]

/-- What a document says of a workspace. -/
def toSpec (w : Workspace) : Except (List Schema.Issue) WorkspaceSpec := do
  return ⟨Schema.standardVersion, w.colorMode, w.domain, ← w.equations.mapM specOfEquation⟩

def equationJson (e : Equation) : Json :=
  .object [("expression", .text e.expression), ("color", .text e.color),
    ("visible", .bool e.visible)]

def domainJson (d : Domain Float) : Json :=
  .object [("xmin", .float d.xmin), ("xmax", .float d.xmax), ("ymin", .float d.ymin),
    ("ymax", .float d.ymax), ("resolution", .int d.resolution)]

def toJson (w : Workspace) : Json :=
  .object [("equations", .list (w.equations.map equationJson)), ("settings", domainJson w.domain)]

/-- The document of a workspace. -/
def document (w : Workspace) : String :=
  w.toJson.print { Json.spaced with asciiOnly := false } ++ "\n"

/-- Why a document makes no workspace. -/
inductive OpenError where
  | document (e : Document.Error)
  | failure (f : Failure)

/-- The workspace of a document. -/
def ofDocument (text : String) : Except OpenError Workspace :=
  match Document.read text with
  | .error e => .error (.document e)
  | .ok spec => (ofSpec spec).mapError .failure

end Relief.Workspace
