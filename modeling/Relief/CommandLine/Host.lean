import Relief.CommandLine.Path
import Relief.Text.Quoted

/-!
What a command needs of the machine on which it runs: the time, and files. A folder in memory is such
a machine.
-/
namespace Relief

inductive FileError where
  | missing
  | directory
  /-- A name of the path, not the last one, is that of a file. -/
  | notDirectory
  | other (reason : String)
  deriving DecidableEq, Repr

/-- Why a file with the given path cannot be had. -/
def FileError.reason (path : String) : FileError → String
  | missing => "[Errno 2] No such file or directory: " ++ Text.quoted path
  | directory => "[Errno 21] Is a directory: " ++ Text.quoted path
  | notDirectory => "[Errno 20] Not a directory: " ++ Text.quoted path
  | other reason => reason

inductive FileKind where
  | file
  | directory
  deriving DecidableEq, Repr

class Host (m : Type → Type) where
  time : m String
  /-- What a path leads to, if to anything. -/
  kind? : String → m (Option FileKind)
  read : String → m (Except FileError (List UInt8))
  /-- Makes a file, or replaces what is in it. -/
  write : String → List UInt8 → m (Except FileError Unit)

/-- Files and directories in memory, by the names that lead to them, at one moment. -/
structure Folder where
  time : String
  files : List (List String × List UInt8)
  directories : List (List String)

namespace Folder

def fileAt? (f : Folder) (names : List String) : Option (List UInt8) :=
  f.files.lookup names

/-- Whether there is a directory. A file is in one. -/
def isDirectory (f : Folder) (names : List String) : Bool :=
  names.isEmpty || f.directories.contains names
    || f.files.any fun (other, _) => names.isPrefixOf other && names != other

/-- Where a path leads, from some place on. -/
def follow (f : Folder) : (place : List String) → List String → Except FileError (List String)
  | place, [] => .ok place
  | place, name :: names =>
    if name == ".." then f.follow place.dropLast names
    else
      let place := place ++ [name]
      if names.isEmpty || f.isDirectory place then f.follow place names
      else if (f.fileAt? place).isSome then .error .notDirectory
      else .error .missing

def locate (f : Folder) (path : String) : Except FileError (List String) :=
  let p := Path.ofText path
  if p.root.isEmpty then f.follow [] p.names else .error .missing

/-- Whether a path can only lead to a directory. -/
def needsDirectory (path : String) : Bool :=
  match (path.toList.splitOn '/').getLast? with
  | some last => last.isEmpty || last == ['.']
  | none => true

def kind? (f : Folder) (path : String) : Option FileKind :=
  if path.isEmpty then none
  else match f.locate path with
    | .error _ => none
    | .ok place =>
      if f.isDirectory place then some .directory
      else if (f.fileAt? place).isSome && !needsDirectory path then some .file
      else none

def read (f : Folder) (path : String) : Except FileError (List UInt8) :=
  match f.locate path with
  | .error e => .error e
  | .ok place =>
    if f.isDirectory place then .error .directory
    else match f.fileAt? place with
      | some bytes => .ok bytes
      | none => .error .missing

def put (f : Folder) (place : List String) (bytes : List UInt8) : Folder :=
  if (f.fileAt? place).isSome then
    { f with files := f.files.map fun e => if e.1 == place then (place, bytes) else e }
  else { f with files := f.files ++ [(place, bytes)] }

def write (f : Folder) (path : String) (bytes : List UInt8) : Except FileError Folder :=
  match f.locate path with
  | .error e => .error e
  | .ok place => if f.isDirectory place then .error .directory else .ok (f.put place bytes)

instance : Host (StateM Folder) where
  time := return (← get).time
  kind? path := return (← get).kind? path
  read path := return (← get).read path
  write path bytes := do
    match (← get).write path bytes with
    | .ok f => set f; return .ok ()
    | .error e => return .error e

end Folder

end Relief
