import Relief.Equation
import Relief.Mesh.Coloring
import Relief.Mesh.Measure
import Relief.PointValue

/-!
Workspaces: equations over one domain, in the order in which they were added. Each has an id that no
other had before it.
-/
namespace Relief

structure Workspace where
  domain : Domain Float
  colorMode : Color.Mode
  equations : List Equation
  nextId : Nat

/-- Why an operation fails. -/
inductive Failure where
  | unknownEquation (id : Int)
  | noSurface (id : Int)
  | unknownMode (name : String)
  | badColor (e : Color.Error)
  | crashed (c : Crash)

/-- The words of a failure, if it has any. -/
def Failure.message? : Failure → Option String
  | unknownEquation id => some ("Unknown equation id: " ++ toString id)
  | noSurface id => some ("Equation " ++ toString id ++ " has no surface")
  | unknownMode name => some (Color.Mode.unknownMessage name)
  | badColor e => e.message?
  | crashed _ => none

/-- The colors that equations are given in turn. -/
def palette : Vector String 10 :=
  #v["#6366f1", "#ec4899", "#8b5cf6", "#10b981", "#f59e0b", "#06b6d4", "#ef4444", "#84cc16",
    "#f97316", "#a855f7"]

def paletteColor (id : Nat) : String :=
  palette[(id - 1) % 10]

namespace Workspace

/-- A workspace without equations. -/
def empty (domain : Domain Float) (colorMode : Color.Mode) : Workspace :=
  ⟨domain, colorMode, [], 1⟩

def find? (w : Workspace) (id : Int) : Option Equation :=
  w.equations.find? fun e => (e.id : Int) == id

/-- With an equation in the place of the one that has its id. -/
def replace (w : Workspace) (e : Equation) : Workspace :=
  { w with equations := w.equations.map fun o => if o.id == e.id then e else o }

/-- The visible equations that are drawn. -/
def drawn (w : Workspace) : List Equation :=
  w.equations.filter fun e => e.visible && e.mesh?.isSome

def surfaces (w : Workspace) : List Format.Surface :=
  w.drawn.filterMap Equation.surface?

/-- What is done with a workspace. What has been done before a failure stays. -/
abbrev Action (α : Type) := ExceptT Failure (StateM Workspace) α

def orCrash {α : Type} : Except Crash α → Action α
  | .ok a => pure a
  | .error c => throw (.crashed c)

def modeOf {m : Type → Type} [Monad m] [MonadExceptOf Failure m] (name : String) : m Color.Mode :=
  match Color.Mode.ofName? name with
  | some mode => pure mode
  | none => throw (.unknownMode name)

def get (id : Int) : Action Equation := do
  match (← getThe Workspace).find? id with
  | some e => return e
  | none => throw (.unknownEquation id)

def put (e : Equation) : Action Unit :=
  modify (·.replace e)

/-- Draws an equation over the current domain. -/
def recompute (id : Int) : Action Equation := do
  let e ← get id
  let e ← orCrash (e.redraw (← getThe Workspace).domain)
  put e
  return e

/-- Draws all visible equations that have a text. -/
def recomputeAll : Action Unit := do
  let shown := (← getThe Workspace).equations.filter Equation.isShown
  shown.forM fun e => discard (recompute e.id)

/-- Adds an equation, and draws it if it is visible. -/
def add (expression : String) (color : Option String) (visible : Bool) : Action Equation := do
  let id := (← getThe Workspace).nextId
  let e : Equation :=
    ⟨id, expression, color.getD (paletteColor id), visible, none, none, none, none⟩
  modify fun w => { w with equations := w.equations ++ [e], nextId := id + 1 }
  if visible then recompute id else return e

def setExpression (id : Int) (text : String) : Action Equation := do
  put { ← get id with expression := text }
  recompute id

/-- Sets what is given of an equation, and draws nothing. -/
def edit (id : Int) (expression color : Option String) (visible : Option Bool) : Action Unit := do
  let e ← get id
  put { e with
    expression := expression.getD e.expression
    color := color.getD e.color
    visible := visible.getD e.visible }

def delete (id : Int) : Action Unit := do
  let e ← get id
  modify fun w => { w with equations := w.equations.filter (·.id != e.id) }

/-- Hides an equation or shows it again, then drawn over the current domain. -/
def toggle (id : Int) : Action Equation := do
  let e ← get id
  let e := { e with visible := !e.visible }
  put e
  if e.isShown && !e.isDrawnOver (← getThe Workspace).domain then recompute id else return e

def setDomain (d : Domain Float) : Action Unit := do
  modify fun w => { w with domain := d }
  recomputeAll

def setColorMode (name : String) : Action Unit := do
  let mode ← modeOf name
  modify fun w => { w with colorMode := mode }

/-- The surface of an equation. -/
def mesh (id : Int) : Action (Mesh Float) := do
  match (← get id).mesh? with
  | some m => return m
  | none => throw (.noSurface id)

def measures (id : Int) : Action (Measures Float) := do
  let e ← get id
  let m ← mesh id
  return m.measures (e.sampledDomain?.getD (← getThe Workspace).domain)

def extrema (id : Int) : Action (Extrema Float) := do
  return (← mesh id).extrema

/-- The colors of an equation's vertices. There are none if all have the same, or no surface. -/
def colors (id : Int) : Action (Option (Array (Color Float))) := do
  let e ← get id
  match e.mesh?, Color.ofText e.color with
  | none, _ => return none
  | some m, .ok color => return m.colors (← getThe Workspace).colorMode color
  | some _, .error error => throw (.badColor error)

/-- The value of an equation at a point given by data of any type. -/
def evaluate (id : Int) (x y : Value) : Action PointValue := do
  orCrash (PointValue.evaluate (← get id).target x y)

end Workspace

end Relief
