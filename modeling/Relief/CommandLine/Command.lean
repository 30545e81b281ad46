import Relief.Color
import Relief.CommandLine.Path
import Relief.CommandLine.Switch

/-!
Commands as users write them.
-/
namespace Relief.CommandLine

open Relief.Number

inductive FileFormat where
  | stl
  | csv
  | json
  | glb
  deriving DecidableEq, Repr

namespace FileFormat

def all : List FileFormat := [stl, csv, json, glb]

def name : FileFormat → String
  | stl => "stl"
  | csv => "csv"
  | json => "json"
  | glb => "glb"

def ofName? (name : String) : Option FileFormat :=
  all.find? (·.name == name)

/-- The format that the name of a file ends with, in any letter case. -/
def ofPath? (p : Path) : Option FileFormat :=
  ofName? p.suffix.toLower

end FileFormat

/-- Bounds and resolution as they are given. -/
structure Region where
  xmin : Float
  xmax : Float
  ymin : Float
  ymax : Float
  resolution : Int

structure ExportOptions where
  output : Path
  format : Option FileFormat
  colorMode : Option Color.Mode
  raised : Option String
  suppressed : Option String

inductive Command where
  | help
  | check (expression : String)
  | evaluate (expression : String) (x y : Float)
  | analyze (expression : String) (region : Region) (json : Bool)
  | export (file : String) (options : ExportOptions)

def helpKey : String := "help"
def helpSwitch : Switch := ⟨helpKey, ["--help"], false⟩

/-- A switch of two dashes and a word, with a value. -/
def named (key : String) : Switch := ⟨key, ["--" ++ key], true⟩

def verboseKey : String := "verbose"
def logKey : String := "log-file"
def versionKey : String := "version"

/-- The switches before the command. -/
def commonSwitches : List Switch :=
  [helpSwitch, ⟨versionKey, ["--" ++ versionKey], false⟩, ⟨verboseKey, ["-v", "--" ++ verboseKey], false⟩,
    named logKey]

def formatKey : String := "format"
def outputKey : String := "output"
def modeKey : String := "color-mode"
def raisedKey : String := "warn-as-error"
def suppressedKey : String := "suppress-warning"

def regionSwitches : List Switch :=
  ["xmin", "xmax", "ymin", "ymax", "resolution"].map named

def exportSwitches : List Switch :=
  [⟨outputKey, ["-o", "--" ++ outputKey], true⟩]
    ++ [formatKey, modeKey, raisedKey, suppressedKey].map named

/-- The value of a switch that has to be of a kind, or what stands for it if it is not set. -/
def Arguments.valueOr {α : Type} (a : Arguments) (key : String) (default : α)
    (read : String → Option α) : Except UsageError α :=
  match a.value? key with
  | none => .ok default
  | some text =>
    match read text with
    | some v => .ok v
    | none => .error (.badValue key text)

def floatArgument (name text : String) : Except UsageError Float :=
  match readFloat? text with
  | some v => .ok v
  | none => .error (.badValue name text)

def noMore : List String → Except UsageError Unit
  | [] => .ok ()
  | arguments => .error (.needlessArguments arguments)

/-- The first of some arguments, and the rest. -/
def takeArgument (name : String) : List String → Except UsageError (String × List String)
  | [] => .error (.missingArgument name)
  | argument :: rest => .ok (argument, rest)

def checkOf (a : Arguments) : Except UsageError Command := do
  let (expression, rest) ← takeArgument "EXPRESSION" a.others
  noMore rest
  return .check expression

def evaluateOf (a : Arguments) : Except UsageError Command := do
  let (expression, rest) ← takeArgument "EXPRESSION" a.others
  let (x, rest) ← takeArgument "X" rest
  let (y, rest) ← takeArgument "Y" rest
  noMore rest
  return .evaluate expression (← floatArgument "X" x) (← floatArgument "Y" y)

def regionOf (a : Arguments) : Except UsageError Region := do
  return {
    xmin := ← a.valueOr "xmin" (-5.0) readFloat?
    xmax := ← a.valueOr "xmax" 5.0 readFloat?
    ymin := ← a.valueOr "ymin" (-5.0) readFloat?
    ymax := ← a.valueOr "ymax" 5.0 readFloat?
    resolution := ← a.valueOr "resolution" 50 readInt? }

/-- Whether a report is to be data, by the name of its format. -/
def isJson? (name : String) : Option Bool :=
  [("text", false), ("json", true)].lookup name

def analyzeOf (a : Arguments) : Except UsageError Command := do
  let (expression, rest) ← takeArgument "EXPRESSION" a.others
  noMore rest
  return .analyze expression (← regionOf a) (← a.valueOr formatKey false isJson?)

def exportOf (a : Arguments) : Except UsageError Command := do
  let (file, rest) ← takeArgument "WORKSPACE_FILE" a.others
  noMore rest
  match a.value? outputKey with
  | none => .error (.missingSwitch outputKey)
  | some output =>
    return .export file {
      output := Path.ofText output
      format := ← a.valueOr formatKey none fun name => (FileFormat.ofName? name).map some
      colorMode := ← a.valueOr modeKey none fun name => (Color.Mode.ofName? name).map some
      raised := a.value? raisedKey
      suppressed := a.value? suppressedKey }

/-- A kind of command: its switches, and how it is made of its arguments. -/
structure Grammar where
  switches : List Switch
  make : Arguments → Except UsageError Command

def grammars : List (String × Grammar) :=
  [("check", ⟨[], checkOf⟩), ("eval", ⟨[], evaluateOf⟩),
    ("analyze", ⟨regionSwitches ++ [named formatKey], analyzeOf⟩),
    ("export", ⟨exportSwitches, exportOf⟩)]

/-- A command, from the arguments after its name. -/
def Grammar.read (g : Grammar) (arguments : List String) : Except UsageError Command := do
  let a ← Arguments.read (helpSwitch :: g.switches) true arguments
  if a.isSet helpKey then return .help else g.make a

end Relief.CommandLine
