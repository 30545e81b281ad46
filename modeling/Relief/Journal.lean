/-!
Notes that the program takes of what it does.
-/
namespace Relief

/-- Who takes a note. -/
inductive Part where
  | program
  | compiler
  | sampler
  | workspace
  | policy
  | exporter
  deriving DecidableEq, Repr

def Part.name : Part → String
  | program => "graphspace"
  | compiler => "graphspace.compiler"
  | sampler => "graphspace.sampler"
  | workspace => "graphspace.workspace"
  | policy => "graphspace.warning_policy"
  | exporter => "graphspace.exporter"

inductive Weight where
  | debug
  | info
  deriving DecidableEq, Repr

def Weight.name : Weight → String
  | debug => "DEBUG"
  | info => "INFO"

structure Note where
  part : Part
  weight : Weight
  text : String
  deriving DecidableEq, Repr

/-- A note as a line, after the time at which it is taken. -/
def Note.line (time : String) (n : Note) : String :=
  String.intercalate " - " [time, n.part.name, n.weight.name, n.text] ++ "\n"

end Relief
