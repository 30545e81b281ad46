import Relief.Schema.Model
import Relief.Yaml.Data

/-!
Workspaces as documents: a mapping whose version is looked at before anything else in it.
-/
namespace Relief.Document

open Relief.Number Relief.Text

inductive Error where
  | unreadable (cause : Yaml.Cause)
  | notMapping
  /-- A version with a whole number that is too long to be written. -/
  | unwritable
  /-- A version of another form, as it is quoted. -/
  | badVersion (quotedVersion : String)
  | unsupportedVersion (version : String)
  /-- A name of a field of the outermost mapping that is no text. -/
  | nameType
  | invalid (issues : List Schema.Issue)

def notYamlMessage : String := "Invalid YAML"
def invalidMessage : String := "Schema validation failed"

/-- The words of an error. Some have none. -/
def Error.message? : Error → Option String
  | unreadable .malformed => some notYamlMessage
  | unreadable _ => none
  | notMapping => some "Top-level value must be a mapping"
  | unwritable => none
  | badVersion quotedVersion => some ("Invalid version format: " ++ quotedVersion)
  | unsupportedVersion version =>
    some ("Unsupported version: " ++ quoted version ++ " (supported: 1.x)")
  | nameType => none
  | invalid _ => some invalidMessage

def supportedMajor : Int := 1

/-- Whether a version is one that can be read: a number, or two with a point between. -/
def checkVersion (version : String) : Except Error Unit :=
  let major? :=
    match version.toList.splitOn '.' with
    | [major] => readInt? (String.ofList major)
    | [major, minor] =>
      (readInt? (String.ofList minor)).bind fun _ => readInt? (String.ofList major)
    | _ => none
  match major? with
  | none => .error (.badVersion (quoted version))
  | some major => if major = supportedMajor then .ok () else .error (.unsupportedVersion version)

/-- The text of a version, whatever it is written as. -/
def versionText (v : Value) : Except Error String :=
  match v with
  | .codes cs => .error (.badVersion (quotedCodes cs))
  | v =>
    if !v.isWritable then .error .unwritable
    else (checkVersion v.plainText).map fun _ => v.plainText

/-- Entries whose version is a text of the right form. -/
def withVersion (entries : Schema.Entries) : Except Error Schema.Entries :=
  match entries.find? (Schema.isNamed "version") with
  | none | some (_, .null) => .ok entries
  | some (_, v) =>
    (versionText v).map fun text =>
      entries.map fun e => if Schema.isNamed "version" e then (e.1, .text text) else e

def isText : Value → Bool
  | .text _ | .codes _ => true
  | _ => false

/-- The entries of a text's outermost mapping. -/
def readEntries (text : String) : Except Error Schema.Entries :=
  match Yaml.read text with
  | .error cause => .error (.unreadable cause)
  | .ok (some (.map entries)) | .ok (some (.orderedMap entries)) =>
    (withVersion entries).map Value.openedEntries
  | .ok _ => .error .notMapping

def read (text : String) : Except Error WorkspaceSpec := do
  let entries ← readEntries text
  if !entries.all fun e => isText e.1 then .error .nameType
  match (Schema.checkNames entries).bind Schema.workspaceOfEntries with
  | .ok spec => .ok spec
  | .error issues => .error (.invalid issues)

end Relief.Document
