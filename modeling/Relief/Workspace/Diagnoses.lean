import Relief.Diagnosis
import Relief.Workspace

/-!
What a user should know of the equations of a workspace.
-/
namespace Relief

namespace Equation

def title (e : Equation) : String :=
  "Equation " ++ toString e.id ++ " (" ++ Text.quoted e.expression ++ ")"

/-- The diagnosis of a refused expression. -/
def rejected (e : Equation) (r : Rejection) : Diagnosis :=
  ⟨Policy.rejectedCode, e.title ++ ": " ++ r.message⟩

/-- The diagnosis of a surface that shows nothing, or nothing but one height. -/
def degenerate? (e : Equation) (m : Mesh Float) : Option Diagnosis :=
  if !m.hasFinite then
    some ⟨Policy.undefinedCode, e.title ++ " has no finite sample in the domain"⟩
  else if m.zMin == m.zMax then
    some ⟨Policy.flatCode, e.title ++ " is flat at z=" ++ Number.sixDigits m.zMin⟩
  else none

def diagnoses (e : Equation) : List Diagnosis :=
  (e.rejection.map e.rejected).toList ++ (e.mesh?.bind e.degenerate?).toList

end Equation

namespace Workspace

def diagnoses (w : Workspace) : List Diagnosis :=
  w.equations.flatMap Equation.diagnoses

/-- Reports the diagnoses of a workspace, which is only looked at. -/
def report (policy : Option Policy) : StateM Workspace Policy.Report := do
  return Policy.report policy (← getThe Workspace).diagnoses

end Workspace

end Relief
