import Relief.Value

/-!
What is wrong with data that should have a given form, and where.
-/
namespace Relief.Schema

inductive Step where
  | field (name : String)
  | index (n : Int)
  deriving DecidableEq, Repr

inductive Problem where
  | unknownField
  /-- A name of a field that is no text. -/
  | nameType
  | modelType
  | listType
  | textType
  /-- Octets or code points that are no text. -/
  | notUnicode
  | boolType
  | boolText
  | intType
  | intText
  /-- A whole number of too many digits. -/
  | intSize
  | intFraction
  | notFinite
  | belowMinimum
  | floatType
  | floatText
  | unknownChoice
  /-- A value of the right type that makes no sense. -/
  | badValue (message : String)
  deriving DecidableEq, Repr

def Problem.code : Problem → String
  | unknownField => "extra_forbidden"
  | nameType => "invalid_key"
  | modelType => "model_type"
  | listType => "list_type"
  | textType => "string_type"
  | notUnicode => "string_unicode"
  | boolType => "bool_type"
  | boolText => "bool_parsing"
  | intType => "int_type"
  | intText => "int_parsing"
  | intSize => "int_parsing_size"
  | intFraction => "int_from_float"
  | notFinite => "finite_number"
  | belowMinimum => "greater_than_equal"
  | floatType => "float_type"
  | floatText => "float_parsing"
  | unknownChoice => "literal_error"
  | badValue _ => "value_error"

/-- The words of a problem that has its own. -/
def Problem.message? : Problem → Option String
  | badValue message => some ("Value error, " ++ message)
  | _ => none

structure Issue where
  /-- The way from the outermost value to the one with the problem. -/
  path : List Step
  problem : Problem
  deriving DecidableEq, Repr

/-- Data read as a value of a type, or everything that is wrong with it. -/
abbrev Read (α : Type) := Value → Except (List Issue) α

def refuse {α : Type} (p : Problem) : Except (List Issue) α :=
  .error [⟨[], p⟩]

/-- Issues of a part, as issues of the whole. -/
def under {α : Type} (step : Step) : Except (List Issue) α → Except (List Issue) α
  | .ok v => .ok v
  | .error issues => .error (issues.map fun i => { i with path := step :: i.path })

def issuesOf {α : Type} : Except (List Issue) α → List Issue
  | .ok _ => []
  | .error issues => issues

end Relief.Schema
