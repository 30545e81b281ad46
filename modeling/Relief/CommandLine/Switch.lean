/-!
Arguments of a command: switches, some with a value, and the rest in order.
-/
namespace Relief.CommandLine

inductive UsageError where
  | unknownSwitch (name : String)
  | missingValue (name : String)
  | needlessValue (name : String)
  | badValue (name value : String)
  | missingSwitch (name : String)
  | missingArgument (name : String)
  | needlessArguments (arguments : List String)
  | missingCommand
  | unknownCommand (name : String)
  | missingFile (path : String)
  | directory (path : String)
  deriving DecidableEq, Repr

def UsageError.message : UsageError → String
  | unknownSwitch name => "No such option: " ++ name
  | missingValue name => "Option " ++ name ++ " requires an argument."
  | needlessValue name => "Option " ++ name ++ " does not take a value."
  | badValue name value => "Invalid value for " ++ name ++ ": " ++ value
  | missingSwitch name => "Missing option " ++ name ++ "."
  | missingArgument name => "Missing argument " ++ name ++ "."
  | needlessArguments arguments =>
    "Got unexpected extra arguments: " ++ String.intercalate " " arguments
  | missingCommand => "Missing command."
  | unknownCommand name => "No such command: " ++ name
  | missingFile path => "No such file: " ++ path
  | directory path => "Is a directory: " ++ path

structure Switch where
  /-- What the switch is called when it is looked up. -/
  key : String
  /-- What the user may write, each of two dashes and a word or of one dash and a letter. -/
  names : List String
  takesValue : Bool
  deriving DecidableEq, Repr

/-- Switches as they are set, in order, and the other arguments. -/
structure Arguments where
  settings : List (String × String)
  others : List String
  deriving DecidableEq, Repr

namespace Arguments

/-- The value of a switch. The last one counts. -/
def value? (a : Arguments) (key : String) : Option String :=
  a.settings.reverse.lookup key

def isSet (a : Arguments) (key : String) : Bool :=
  (a.value? key).isSome

end Arguments

/-- The settings in one argument, and whether the next argument is a value of the last. -/
abbrev Found := Except UsageError (List (String × String) × Bool)

/-- The settings in a row of letters after a dash. -/
def lettersAt (switches : List Switch) (next : Option String) : List Char → Found
  | [] => .ok ([], false)
  | c :: cs =>
    let name := String.ofList ['-', c]
    match switches.find? fun s => s.names.contains name with
    | none => .error (.unknownSwitch name)
    | some s =>
      if s.takesValue then
        match cs, next with
        | [], none => .error (.missingValue name)
        | [], some value => .ok ([(s.key, value)], true)
        | cs, _ => .ok ([(s.key, String.ofList cs)], false)
      else (lettersAt switches next cs).map fun (settings, used) => ((s.key, "") :: settings, used)

def isLong (name : String) : Bool :=
  "--".toList.isPrefixOf name.toList

/-- The settings in an argument. A value may follow an equals sign. -/
def settingsAt (switches : List Switch) (argument : String) (next : Option String) : Found :=
  let cs := argument.toList
  let name := String.ofList (cs.takeWhile (· != '='))
  let attached : Option String :=
    if cs.contains '=' then some (String.ofList (cs.drop (name.length + 1))) else none
  match switches.find? fun s => isLong name && s.names.contains name with
  | some s =>
    match s.takesValue, attached, next with
    | true, some value, _ => .ok ([(s.key, value)], false)
    | true, none, some value => .ok ([(s.key, value)], true)
    | true, none, none => .error (.missingValue name)
    | false, some _, _ => .error (.needlessValue name)
    | false, none, _ => .ok ([(s.key, "")], false)
  | none =>
    if isLong argument then .error (.unknownSwitch name) else lettersAt switches next (cs.drop 1)

def isSwitch (argument : String) : Bool :=
  argument.startsWith "-" && argument != "-"

/-- All arguments. After two dashes there is no switch, and unless they may be mixed there is none
after any other argument. -/
def Arguments.read (switches : List Switch) (mixed : Bool) :
    List String → Except UsageError Arguments
  | [] => .ok ⟨[], []⟩
  | argument :: rest =>
    if argument == "--" then .ok ⟨[], rest⟩
    else if isSwitch argument then
      match settingsAt switches argument rest.head? with
      | .error e => .error e
      | .ok (settings, used) =>
        (read switches mixed (if used then rest.tail else rest)).map fun a =>
          { a with settings := settings ++ a.settings }
    else if mixed then
      (read switches mixed rest).map fun a => { a with others := argument :: a.others }
    else .ok ⟨[], argument :: rest⟩
termination_by arguments => arguments.length
decreasing_by
  · split <;> simp only [List.length_tail, List.length_cons] <;> omega
  · simp

end Relief.CommandLine
