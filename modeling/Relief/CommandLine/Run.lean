import Relief.CommandLine.Command
import Relief.CommandLine.Host
import Relief.Format.Glb
import Relief.Format.Plain
import Relief.Workspace.Notes
import Relief.Workspace.Spec

/-!
Commands carried out: what they say, what they write, and how they end.
-/
namespace Relief.CommandLine

open Relief.Format

/-- What stops a command that has no words for it. -/
inductive Breakdown where
  | failure (f : Failure)
  | document (e : Document.Error)
  | scene (e : Glb.Error)
  /-- A document that is no text. -/
  | encoding
  | log (e : FileError)

/-- How a command ends before its last step. -/
inductive Stop where
  | usage (e : UsageError)
  | status (n : Nat)
  | failed (message : String)
  | broken (b : Breakdown)

/-- What a command has said so far. -/
structure Session where
  verbose : Bool
  logFile : Option String
  log : String
  out : String
  err : String
  warnings : List Diagnosis

def Session.start : Session := ⟨false, none, "", "", "", []⟩

variable {m : Type → Type} [Monad m]

/-- A step of a command. -/
abbrev Step (m : Type → Type) (α : Type) := ExceptT Stop (StateT Session m) α

def say (line : String) : Step m Unit :=
  modify fun s => { s with out := s.out ++ line ++ "\n" }

def complain (text : String) : Step m Unit :=
  modify fun s => { s with err := s.err ++ text }

def host {α : Type} (a : m α) : Step m α :=
  liftM a

def failWith {α : Type} (message : String) : Step m α :=
  throw (.failed message)

def breakWith {α : Type} (b : Breakdown) : Step m α :=
  throw (.broken b)

def orUsage {α : Type} : Except UsageError α → Step m α
  | .ok a => pure a
  | .error e => throw (.usage e)

def orBroken {α : Type} : Except Crash α → Step m α
  | .ok a => pure a
  | .error c => breakWith (.failure (.crashed c))

def utf8 (text : String) : List UInt8 :=
  text.toUTF8.toList

/-- Writes the log as it stands. -/
def keepLog [Host m] : Step m Unit := do
  let s ← getThe Session
  match s.logFile with
  | none => return ()
  | some path =>
    match ← host (Host.write path (utf8 s.log)) with
    | .ok () => return ()
    | .error e => breakWith (.log e)

/-- Takes a note, if notes are wanted. -/
def note [Host m] (n : Note) : Step m Unit := do
  if (← getThe Session).verbose then
    let line := n.line (← host Host.time)
    modify fun s => { s with err := s.err ++ line, log := s.log ++ line }
    keepLog

def noteAll [Host m] (ns : List Note) : Step m Unit :=
  ns.forM note

/-! ### The commands -/

def rejectionOrBreakdown {α : Type} : CompileError → Step m α
  | .rejected r => failWith r.message
  | .crashed c => breakWith (.failure (.crashed c))

def runCheck [Host m] (expression : String) : Step m Unit := do
  let stages ← orBroken ((Shorthand.stages expression).mapError .foreignSpelling)
  say ("input:      " ++ expression)
  say ("normalized: " ++ stages.normalized)
  say ("multiplied: " ++ stages.multiplied)
  say ("resolved:   " ++ stages.resolved)
  noteAll (Evaluator.notes expression)
  match Evaluator.compile expression with
  | .error e => rejectionOrBreakdown e
  | .ok f =>
    let names := f.tree.sortedVariables
    say ("parsed:     " ++ (← orBroken (f.tree.text.mapError .fault)))
    say ("variables:  "
      ++ if names.isEmpty then "(none)" else String.intercalate ", " names)
    say "OK"

def runEvaluate (expression : String) (x y : Float) : Step m Unit := do
  let v ← orBroken (PointValue.evaluate (.formula expression) (.float x) (.float y))
  say v.text
  match v with
  | .error message => do
    complain (message ++ "\n")
    throw (.status 1)
  | _ => return ()

/-- Why bounds and a resolution make no domain. -/
def regionMessage (reason : String) : String :=
  "Invalid domain: " ++ reason

def domainOf (r : Region) : Step m (Domain Float) :=
  if h : 0 < r.resolution.toNat then
    match Domain.ofBounds r.xmin r.xmax r.ymin r.ymax r.resolution.toNat h with
    | .ok d => return d
    | .error e => failWith (regionMessage e.message)
  else failWith (regionMessage "resolution must be positive")

def vecJson (v : Vec3 Float) : Json :=
  .list [.float v.x, .float v.y, .float v.z]

def vertexJson (v : Option (Nat × Vec3 Float)) : Json :=
  (v.map fun v => vecJson v.2).getD .null

/-- A report as data. -/
def reportJson (expression : String) (d : Domain Float) (s : Measures Float) (e : Extrema Float) :
    Json :=
  .object [("expression", .text expression), ("domain", Workspace.domainJson d),
    ("z_min", .float s.zMin), ("z_max", .float s.zMax), ("surface_area", .float s.surfaceArea),
    ("volume", .float s.volume), ("min", vertexJson e.lowest), ("max", vertexJson e.highest)]

def inCents (v : Float) : String :=
  Number.fixedText 2 v

def vertexLine (label : String) (v : Option (Nat × Vec3 Float)) : List String :=
  v.toList.map fun (_, v) =>
    label ++ "(" ++ String.intercalate ", " ([v.x, v.y, v.z].map inCents) ++ ")"

/-- A report in words. -/
def reportLines (s : Measures Float) (e : Extrema Float) : List String :=
  ["Z range:      [" ++ inCents s.zMin ++ ", " ++ inCents s.zMax ++ "]",
    "Surface area: " ++ inCents s.surfaceArea, "Volume:       " ++ inCents s.volume]
    ++ vertexLine "Minimum:      " e.lowest ++ vertexLine "Maximum:      " e.highest

def emptyMessage : String := "Expression is empty"

def runAnalyze [Host m] (expression : String) (r : Region) (json : Bool) : Step m Unit := do
  let d ← domainOf r
  let (added, w) := ((Workspace.add expression none true).run (Workspace.empty d .solid)).run
  noteAll w.notes
  match added with
  | .error f => breakWith (.failure f)
  | .ok e =>
    match e.rejection, e.mesh? with
    | some r, _ => failWith r.message
    | none, none => failWith emptyMessage
    | none, some mesh =>
      let (s, extrema) := (mesh.measures d, mesh.extrema)
      if json then say ((reportJson expression d s extrema).print Json.spaced)
      else (reportLines s extrema).forM say

def policyOf (options : ExportOptions) : Step m (Option Policy) :=
  match Policy.ofOptions? options.raised options.suppressed with
  | .ok policy => return policy
  | .error e => failWith e.message

def formatOf (options : ExportOptions) : Step m FileFormat :=
  match options.format, FileFormat.ofPath? options.output with
  | some format, _ | none, some format => return format
  | none, none =>
    failWith ("Cannot infer export format from " ++ Text.quoted options.output.name
      ++ "; use --format (" ++ String.intercalate "|" (FileFormat.all.map FileFormat.name) ++ ")")

def stepText : Schema.Step → String
  | .field name => name
  | .index n => toString n

/-- An issue as a line: where it is, and what it is. -/
def issueLine (i : Schema.Issue) : String :=
  "  " ++ String.intercalate "." (i.path.map stepText) ++ ": "
    ++ i.problem.message?.getD i.problem.code

/-- How a command ends whose document makes no workspace. -/
def documentStop (e : Document.Error) : Stop :=
  match e with
  | .unreadable .malformed => .failed (Document.notYamlMessage ++ ": not a document")
  | .unreadable _ | .unwritable | .nameType => .broken (.document e)
  | .invalid issues =>
    .failed (String.intercalate "\n" ((Document.invalidMessage ++ ":") :: issues.map issueLine))
  | .notMapping | .badVersion _ | .unsupportedVersion _ => .failed (e.message?.getD "")

def readText [Host m] (path : Path) : Step m String := do
  match ← host (Host.read path.text) with
  | .error e => failWith ("Cannot read file: " ++ e.reason path.text)
  | .ok bytes =>
    match String.fromUTF8? ⟨bytes.toArray⟩ with
    | some text => return text
    | none => breakWith .encoding

/-- The workspace in a file. -/
def openWorkspace [Host m] (path : Path) : Step m Workspace := do
  match Document.read (← readText path) with
  | .error e => throw (documentStop e)
  | .ok spec =>
    let (made, w) := Workspace.makeFrom spec
    noteAll w.notes
    match made with
    | .ok () => return w
    | .error f => breakWith (.failure f)

/-- Tells what should be known of a workspace, and fails if the policy says so. -/
def reportDiagnoses [Host m] (w : Workspace) (policy : Option Policy) : Step m Workspace := do
  let (report, w) := ((Workspace.report policy).run w).run
  noteAll (report.suppressed.map Diagnosis.suppressedNote)
  modify fun s => { s with warnings := s.warnings ++ report.warnings }
  match report.raised with
  | some d => failWith d.text
  | none => return w

def orExport {α : Type} : Except ExportError α → Step m α
  | .ok a => pure a
  | .error e => failWith e.message

/-- The bytes of a file, and what is noted once they are written. -/
def contentOf (format : FileFormat) (w : Workspace) : Step m (List UInt8 × String) := do
  match format with
  | .json => return (utf8 w.document, "Wrote JSON")
  | .csv => return (utf8 (← orExport (csv w.surfaces)), "Wrote CSV")
  | .stl => return (utf8 (← orExport (stl solidName w.surfaces)), "Wrote STL")
  | .glb =>
    match Glb.ofSurfaces w.colorMode w.surfaces with
    | .ok bytes =>
      return (bytes, "Wrote GLB with " ++ toString w.surfaces.length ++ " surface(s)")
    | .error (.notExported e) => orExport (.error e)
    | .error e => breakWith (.scene e)

def runExport [Host m] (file : String) (options : ExportOptions) : Step m Unit := do
  let policy ← policyOf options
  let format ← formatOf options
  let w ← openWorkspace (Path.ofText file)
  let w := { w with colorMode := options.colorMode.getD w.colorMode }
  let w ← reportDiagnoses w policy
  let (bytes, done) ← contentOf format w
  let path := options.output.text
  match ← host (Host.write path bytes) with
  | .error e => failWith (ExportError.message (.cannotWrite path (e.reason path)))
  | .ok () =>
    note ⟨.exporter, .info, done ++ " to " ++ path⟩
    say ("Exported: " ++ path)

/-! ### The whole line -/

def programName : String := "graphspace"
def version : String := "0.1.0"

def helpLines : List String :=
  ["Usage: " ++ programName ++ " [-v] [--log-file FILE] COMMAND [ARGUMENTS]",
    "", "Commands:",
    "  check EXPRESSION                    show how an expression is read",
    "  eval EXPRESSION X Y                 the value at a point",
    "  analyze EXPRESSION [BOUNDS]         range, area, volume and extrema",
    "  export WORKSPACE_FILE -o FILE       the surfaces of a workspace as a file"]

/-- The file that an export reads must be there. -/
def checkFiles [Host m] : Command → Step m Unit
  | .export file _ => do
    if (← host (Host.kind? file)).isNone then throw (.usage (.missingFile file))
  | _ => return ()

def runCommand [Host m] : Command → Step m Unit
  | .help => helpLines.forM say
  | .check expression => runCheck expression
  | .evaluate expression x y => runEvaluate expression x y
  | .analyze expression region json => runAnalyze expression region json
  | .export file options => runExport file options

/-- Begins to take notes. -/
def startLog [Host m] (a : Arguments) : Step m Unit := do
  modify fun s => { s with
    verbose := a.isSet verboseKey
    logFile := (a.value? logKey).map fun path => (Path.ofText path).text }
  keepLog
  note ⟨.program, .debug, "Logging initialized."⟩

def runLine [Host m] (arguments : List String) : Step m Unit := do
  let a ← orUsage (Arguments.read commonSwitches false arguments)
  if a.isSet versionKey then
    say (programName ++ ", version " ++ version)
  else if a.isSet helpKey then
    helpLines.forM say
  else
    match a.value? logKey with
    | some path =>
      if (← host (Host.kind? path)) == some .directory then throw (.usage (.directory path))
    | none => pure ()
    match a.others with
    | [] => throw (.usage .missingCommand)
    | name :: rest =>
      match grammars.lookup name with
      | none => throw (.usage (.unknownCommand name))
      | some grammar =>
        startLog a
        let command ← orUsage (grammar.read rest)
        checkFiles command
        runCommand command

/-- What is to be seen of a command that has ended. -/
structure Outcome where
  status : Nat
  out : String
  err : String
  warnings : List Diagnosis
  /-- What broke the command off, if it did not end by itself. -/
  breakdown : Option Breakdown

def usageStatus : Nat := 2

/-- The outcome of a command that has stopped, or run to its end. -/
def outcomeOf (ended : Except Stop Unit) (s : Session) : Outcome :=
  let outcome (status : Nat) (err : String) (breakdown : Option Breakdown) : Outcome :=
    ⟨status, s.out, err, s.warnings, breakdown⟩
  match ended with
  | .ok () => outcome 0 s.err none
  | .error (.status n) => outcome n s.err none
  | .error (.failed message) => outcome 1 (s.err ++ "Error: " ++ message ++ "\n") none
  | .error (.usage e) => outcome usageStatus (s.err ++ "Error: " ++ e.message ++ "\n") none
  | .error (.broken b) => outcome 1 s.err (some b)

/-- Carries out a command line. -/
def run [Host m] (arguments : List String) : m Outcome := do
  let (ended, s) ← ((runLine arguments : Step m Unit).run).run Session.start
  return outcomeOf ended s

end Relief.CommandLine
