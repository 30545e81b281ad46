import Relief.CommandLine.Run

/-!
The program itself, on the machine's own files.
-/
namespace Relief.CommandLine

/-- A file error for what went wrong. -/
def fileErrorOf : IO.Error → FileError
  | .noFileOrDirectory .. => .missing
  | e => .other (toString e)

/-- The time since the machine was started, in hours, minutes and seconds. -/
def elapsed : IO String := do
  let seconds := (← IO.monoMsNow) / 1000
  let two (n : Nat) : String := String.ofList (Number.padLeft 2 (Nat.toDigits 10 n))
  return String.intercalate ":" [two (seconds / 3600), two (seconds / 60 % 60), two (seconds % 60)]

def canOpen (path : String) : IO Bool := do
  try
    discard (IO.FS.Handle.mk path .read)
    return true
  catch _ => return false

/-- Only a directory has a name for itself in it. -/
def kindAt? (path : String) : IO (Option FileKind) := do
  if path.isEmpty then return none
  else if ← canOpen (path ++ "/.") then return some .directory
  else if ← canOpen path then return some .file
  else return none

def readAt (path : String) : IO (Except FileError (List UInt8)) := do
  if (← kindAt? path) == some .directory then return .error .directory
  try
    return .ok (← IO.FS.readBinFile path).toList
  catch e => return .error (fileErrorOf e)

def writeAt (path : String) (bytes : List UInt8) : IO (Except FileError Unit) := do
  if (← kindAt? path) == some .directory then return .error .directory
  try
    IO.FS.writeBinFile path ⟨bytes.toArray⟩
    return .ok ()
  catch e => return .error (fileErrorOf e)

instance : Host IO where
  time := elapsed
  kind? := kindAt?
  read := readAt
  write := writeAt

def Breakdown.message : Breakdown → String
  | failure f => f.message?.getD "the expression cannot be evaluated"
  | document e => e.message?.getD "the document has a value of the wrong kind"
  | scene _ => "the surfaces cannot be written as a scene"
  | encoding => "the document is no text"
  | log e => "cannot write the log: " ++ e.reason ""

end Relief.CommandLine

open Relief Relief.CommandLine in
def main (arguments : List String) : IO UInt32 := do
  let outcome ← (run arguments : IO Outcome)
  IO.print outcome.out
  for d in outcome.warnings do
    IO.eprintln ("Warning: " ++ d.text)
  IO.eprint outcome.err
  match outcome.breakdown with
  | some b => IO.eprintln ("Error: " ++ b.message)
  | none => pure ()
  return outcome.status.toUInt32
