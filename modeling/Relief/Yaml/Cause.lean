/-!
Versions of YAML, which differ in what plain scalars stand for and in where a colon may stand, and why a text
is no document, or a document no data.
-/
namespace Relief.Yaml

inductive Version where
  | v11
  | v12
  deriving DecidableEq, Repr

namespace Version

def ofNumbers? (major minor : Nat) : Option Version :=
  match major, minor with
  | 1, 1 => some v11
  | 1, 2 => some v12
  | _, _ => none

end Version

inductive Cause where
  | malformed
  /-- A version of the format that is not known. -/
  | version
  /-- Collections within collections, too many of them. -/
  | tooDeep
  /-- An escape for a code point that is none. -/
  | codePoint
  /-- An escape for a number that is far from any code point. -/
  | hugeCodePoint
  /-- A scalar that is tagged as a number or a date, and is none. -/
  | number
  /-- An empty scalar that is tagged as a number. -/
  | emptyNumber
  /-- A time after the last one, or a power too large for a number. -/
  | tooLarge
  /-- A scalar that is tagged as a truth value, and is none. -/
  | truth
  /-- A key with a collection in it. -/
  | compoundKey
  /-- A key that an ordered mapping has twice. -/
  | repeatedKey
  deriving DecidableEq, Repr

def orMalformed {α : Type} (found : Option α) : Except Cause α :=
  match found with
  | some a => .ok a
  | none => .error .malformed

end Relief.Yaml
