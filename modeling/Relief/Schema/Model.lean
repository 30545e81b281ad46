import Relief.Schema.Plain
import Relief.Domain
import Relief.Value.Code

/-!
Domains, equations and workspaces read from data. Every field may be missing, none may be unknown, and
all that is wrong is reported: the fields in their order, then the unknown ones in theirs.
-/
namespace Relief

open Relief.Number

/-- Numbers that are no index are as large as this. -/
def Schema.indexLimit : Nat := 9223372036854775808

/-- The place of a field by its key, whatever type that has. -/
def Value.keyStep : Value → Schema.Step
  | .text s => .field s
  | .int n => if n.natAbs < Schema.indexLimit then .index n else .field (toString n)
  | .bool b => .index (if b then 1 else 0)
  | v => .field v.code

def BoundsError.message : BoundsError → String
  | notFinite name => name ++ " must be finite"
  | empty axis low high =>
    axis ++ "min (" ++ generalText low ++ ") must be less than " ++ axis ++ "max ("
      ++ generalText high ++ ")"

/-- What a workspace document says of an equation. -/
structure EquationSpec where
  expression : String
  color : Option String
  visible : Bool
  deriving DecidableEq, Repr

/-- What a workspace document says. -/
structure WorkspaceSpec where
  version : String
  colorMode : Color.Mode
  settings : Domain Float
  equations : List EquationSpec

namespace Schema

abbrev Entries := List (Value × Value)

def isNamed (name : String) (entry : Value × Value) : Bool :=
  match entry.1 with
  | .text s => s == name
  | _ => false

/-- A field, or what stands for it if it is missing. -/
def field {α : Type} (entries : Entries) (name : String) (default : α) (read : Read α) :
    Except (List Issue) α :=
  match entries.find? (isNamed name) with
  | some (_, v) => under (.field name) (read v)
  | none => .ok default

/-- The entries that are no fields. Octets name a field that is there, but do not stand for it. -/
def unknownFields (entries : Entries) (names : List String) : List Issue :=
  entries.filterMap fun (key, _) =>
    match key with
    | .text s => if names.contains s then none else some ⟨[.field s], .unknownField⟩
    | .codes cs => (Value.textOfCodes? cs).map fun s => ⟨[.field s], .unknownField⟩
    | .octets bytes =>
      match Value.textOfOctets? bytes with
      | some s =>
        if names.contains s && entries.any (isNamed s) then none
        else some ⟨[key.keyStep], .unknownField⟩
      | none => some ⟨[key.keyStep], .nameType⟩
    | _ => some ⟨[key.keyStep], .nameType⟩

/-- Entries all of whose names are characters, where they are texts. -/
def checkNames (entries : Entries) : Except (List Issue) Entries :=
  if entries.any fun e => match e.1 with
      | .codes cs => (Value.textOfCodes? cs).isNone
      | _ => false
  then refuse .notUnicode
  else .ok entries

def entriesOf : Read Entries
  | .map entries | .orderedMap entries => checkNames entries
  | _ => refuse .modelType

def domainFields : List String := ["xmin", "xmax", "ymin", "ymax", "resolution"]

def domainOfEntries (entries : Entries) : Except (List Issue) (Domain Float) :=
  let standard := Domain.standard
  let xmin := field entries "xmin" standard.xmin readFloat
  let xmax := field entries "xmax" standard.xmax readFloat
  let ymin := field entries "ymin" standard.ymin readFloat
  let ymax := field entries "ymax" standard.ymax readFloat
  let resolution := field entries "resolution" ⟨standard.resolution, standard.resolution_pos⟩
    readCount
  let issues := issuesOf xmin ++ issuesOf xmax ++ issuesOf ymin ++ issuesOf ymax
    ++ issuesOf resolution ++ unknownFields entries domainFields
  match issues, xmin, xmax, ymin, ymax, resolution with
  | [], .ok xmin, .ok xmax, .ok ymin, .ok ymax, .ok n =>
    match Domain.ofBounds xmin xmax ymin ymax n.val n.property with
    | .ok d => .ok d
    | .error e => refuse (.badValue e.message)
  | issues, _, _, _, _, _ => .error issues

def readDomain : Read (Domain Float) := fun v => do
  domainOfEntries (← entriesOf v)

def equationFields : List String := ["expression", "color", "visible"]

def equationOfEntries (entries : Entries) : Except (List Issue) EquationSpec :=
  let expression := field entries "expression" "" readText
  let color := field entries "color" none readColor
  let visible := field entries "visible" true readBool
  let issues := issuesOf expression ++ issuesOf color ++ issuesOf visible
    ++ unknownFields entries equationFields
  match issues, expression, color, visible with
  | [], .ok expression, .ok color, .ok visible => .ok ⟨expression, color, visible⟩
  | issues, _, _, _ => .error issues

def readEquation : Read EquationSpec := fun v => do
  equationOfEntries (← entriesOf v)

/-- The elements of a list, with the issues of all of them. -/
def readItems {α : Type} (read : Read α) : (n : Nat) → List Value → Except (List Issue) (List α)
  | _, [] => .ok []
  | n, v :: vs =>
    match under (.index n) (read v), readItems read (n + 1) vs with
    | .ok a, .ok as => .ok (a :: as)
    | a, as => .error (issuesOf a ++ issuesOf as)

def readEquations : Read (List EquationSpec)
  | .list items | .set items => readItems readEquation 0 items
  | _ => refuse .listType

def workspaceFields : List String := ["version", "color_mode", "settings", "equations"]

def standardVersion : String := "1.0"

def workspaceOfEntries (entries : Entries) : Except (List Issue) WorkspaceSpec :=
  let version := field entries "version" standardVersion readText
  let colorMode := field entries "color_mode" Color.Mode.solid readMode
  let settings := field entries "settings" Domain.standard readDomain
  let equations := field entries "equations" [] readEquations
  let issues := issuesOf version ++ issuesOf colorMode ++ issuesOf settings ++ issuesOf equations
    ++ unknownFields entries workspaceFields
  match issues, version, colorMode, settings, equations with
  | [], .ok version, .ok colorMode, .ok settings, .ok equations =>
    .ok ⟨version, colorMode, settings, equations⟩
  | issues, _, _, _, _ => .error issues

end Schema

end Relief
