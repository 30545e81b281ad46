import Relief.Journal
import Relief.Workspace.Diagnoses

/-!
The notes that are taken when equations are added to a workspace, as the workspace shows them
afterwards.
-/
namespace Relief

open Relief.Text

namespace Evaluator

/-- What is noted of a formula that is compiled. -/
def notes (source : String) : List Note :=
  match compileAt source probePoints with
  | .ok (f, n) =>
    [⟨.compiler, .debug, "Compiled " ++ quoted source ++ " as " ++ quoted f.expanded ++ " ("
      ++ toString n ++ "/" ++ toString probePoints.length ++ " finite probes)"⟩]
  | .error (.rejected r) =>
    [⟨.compiler, .debug, "Rejected expression " ++ quoted source ++ ": " ++ r.message⟩]
  | .error (.crashed _) => []

end Evaluator

namespace Mesh

/-- What is noted of a surface with holes. -/
def notes (m : Mesh Float) : List Note :=
  let undefined := m.vertexCount - m.finiteCount
  if undefined = 0 then []
  else [⟨.sampler, .debug, toString undefined ++ " of " ++ toString m.vertexCount
    ++ " samples undefined; stored at height 0"⟩]

end Mesh

namespace Equation

def addedNote (e : Equation) : Note :=
  ⟨.workspace, .debug, "Added equation " ++ toString e.id ++ ": " ++ quoted e.expression⟩

def rejectedNote (e : Equation) (r : Rejection) : Note :=
  ⟨.workspace, .info, "Equation " ++ toString e.id ++ " rejected: " ++ r.message⟩

def sampledNote (e : Equation) (m : Mesh Float) : Note :=
  ⟨.workspace, .debug, "Equation " ++ toString e.id ++ " sampled: " ++ toString m.vertexCount
    ++ " vertices, z in [" ++ Number.sixDigits m.zMin ++ ", " ++ Number.sixDigits m.zMax ++ "]"⟩

/-- What is noted of an equation that is added. -/
def notes (e : Equation) : List Note :=
  let drawn :=
    if e.isShown then
      Evaluator.notes e.expression ++ (e.rejection.map e.rejectedNote).toList
        ++ (e.mesh?.map fun m => m.notes ++ [e.sampledNote m]).getD []
    else []
  e.addedNote :: drawn

end Equation

/-- What is noted of a new workspace. -/
def Workspace.notes (w : Workspace) : List Note :=
  w.equations.flatMap Equation.notes

/-- What is noted of a diagnosis that is passed over. -/
def Diagnosis.suppressedNote (d : Diagnosis) : Note :=
  ⟨.policy, .debug, "Suppressed " ++ d.text⟩

end Relief
