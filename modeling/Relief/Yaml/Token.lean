import Relief.Yaml.Wording

/-!
The tokens of a text: marks of documents and collections, names, tags and scalars.
-/
namespace Relief.Yaml

/-- What a line before a document says. -/
inductive Directive where
  | version (major minor : Nat)
  /-- What tags with a handle begin with. -/
  | handle (name start : String)
  | other
  deriving DecidableEq, Repr

inductive Bracket where
  | square
  | brace
  deriving DecidableEq, Repr

inductive Token where
  | directive (d : Directive)
  | documentStart
  | documentEnd
  | textEnd
  | blockSequence
  | blockMapping
  /-- The end of a block collection, where something is indented less. -/
  | blockEnd
  | flowStart (b : Bracket)
  | flowEnd (b : Bracket)
  | comma
  | entry
  | key
  | value
  | reference (name : String)
  | anchor (name : String)
  | tag (handle : Option String) (suffix : String)
  | scalar (plain : Bool) (text : Wording)
  deriving DecidableEq, Repr

end Relief.Yaml
