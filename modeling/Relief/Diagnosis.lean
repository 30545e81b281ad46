import Relief.Text.Quoted
import Relief.Text.Ranges
import Relief.Text.Uppercase

/-!
Diagnoses under codes, and the policy that decides which of them are warnings, which stop the work,
and which are passed over.
-/
namespace Relief

open Relief.Text

structure Diagnosis where
  code : String
  message : String
  deriving DecidableEq, Repr

/-- A diagnosis as it is shown. -/
def Diagnosis.text (d : Diagnosis) : String :=
  "[" ++ d.code ++ "] " ++ d.message

/-- Codes that a policy raises and suppresses. All others are warnings. -/
structure Policy where
  raised : List String
  suppressed : List String
  deriving DecidableEq, Repr

/-- Codes that nobody knows, in order. -/
structure UnknownCodes where
  codes : List String
  deriving DecidableEq, Repr

namespace Policy

inductive Action where
  | warn
  | raise
  | ignore
  deriving DecidableEq, Repr

def empty : Policy := ⟨[], []⟩

/-- Suppression wins. -/
def action (p : Policy) (code : String) : Action :=
  if p.suppressed.contains code then .ignore
  else if p.raised.contains code then .raise
  else .warn

/-- Codes of equations that are no formulas, of surfaces without a finite point, and of flat ones. -/
def rejectedCode : String := "W01"
def undefinedCode : String := "W02"
def flatCode : String := "W03"

def knownCodes : List String := [rejectedCode, undefinedCode, flatCode]

/-- The texts between commas. -/
def splitCommas (cs : List Char) : List (List Char) :=
  cs.splitOn ','

/-- A code as a user types it, without blanks around it and in upper case. -/
def codeOf (cs : List Char) : String :=
  upper (String.ofList (trim cs))

def sortTexts (texts : List String) : List String :=
  texts.mergeSort (· ≤ ·)

/-- Known codes separated by commas, in order and each once. -/
def readCodes (raw : String) : Except UnknownCodes (List String) :=
  let parts := (splitCommas raw.toList).filter fun cs => !(trim cs).isEmpty
  let codes := sortTexts (parts.map codeOf).eraseDups
  match codes.filter fun code => !knownCodes.contains code with
  | [] => .ok codes
  | unknown => .error ⟨unknown⟩

/-- The policy of two lists of codes. There is none if neither is given. -/
def ofOptions? (raised suppressed : Option String) : Except UnknownCodes (Option Policy) :=
  match raised, suppressed with
  | none, none => .ok none
  | _, _ => do
    let raised ← readCodes (raised.getD "")
    let suppressed ← readCodes (suppressed.getD "")
    return some ⟨raised, suppressed⟩

/-- What becomes of a list of diagnoses. -/
structure Report where
  warnings : List Diagnosis
  suppressed : List Diagnosis
  /-- The diagnosis that stopped the work. -/
  raised : Option Diagnosis
  deriving DecidableEq, Repr

/-- Diagnoses in order, up to the first that is raised. -/
def reportUnder (p : Policy) : List Diagnosis → Report
  | [] => ⟨[], [], none⟩
  | d :: ds =>
    match p.action d.code with
    | .raise => ⟨[], [], some d⟩
    | .ignore => let r := p.reportUnder ds; { r with suppressed := d :: r.suppressed }
    | .warn => let r := p.reportUnder ds; { r with warnings := d :: r.warnings }

/-- Without a policy, every diagnosis is a warning. -/
def report (policy : Option Policy) (ds : List Diagnosis) : Report :=
  (policy.getD empty).reportUnder ds

end Policy

def UnknownCodes.message (e : UnknownCodes) : String :=
  "Unknown warning code(s): " ++ String.intercalate ", " e.codes ++ " (known: "
    ++ quotedList Policy.knownCodes ++ ")"

end Relief
