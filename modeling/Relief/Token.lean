import Relief.Expr.Basic
import Relief.Number.Layout
import Relief.Number.Numeral
import Relief.Shorthand.Names
import Relief.Text.Quoted

/-!
Tokens of spelled-out expressions. The scanner takes the longest token at each place and passes over
blanks.
-/
namespace Relief

open Relief.Text Relief.Number

inductive Token.Kind where
  | number (value : Float)
  | var (name : String)
  | func (name : String)
  | caret
  | plus
  | minus
  | star
  | slash
  | openParen
  | closeParen
  | comma
  | finish

structure Token where
  kind : Token.Kind
  /-- How many characters stand before it. -/
  position : Nat

/-- Why a text is not an expression. -/
inductive GrammarError where
  | empty
  | unexpectedCharacter (c : Char) (position : Nat)
  | unknownFunction (name : String)
  | unknownIdentifier (name : String)
  | missingOpenParen (found : Token.Kind)
  | missingCloseParen (found : Token.Kind)
  | unexpectedToken (token : Token)
  | endsUnexpectedly
  | wrongArity (function : Expr.Function) (count : Nat)
  | nestedTooDeeply

namespace Token

def Kind.describe : Kind → String
  | number value => "number " ++ generalText value
  | var name | func name => quoted name
  | caret => "'^'"
  | plus => "'+'"
  | minus => "'-'"
  | star => "'*'"
  | slash => "'/'"
  | openParen => "'('"
  | closeParen => "')'"
  | comma => "','"
  | finish => "end of expression"

def describe (t : Token) : String :=
  t.kind.describe

/-- What stands at the start of a text: a token, a blank, or a name of no meaning. -/
inductive Lexeme where
  | token (kind : Kind)
  | blank
  | error (e : GrammarError)

def isNameStart (c : Char) : Bool :=
  isAsciiLetter c || c == '_'

def isNamePart (c : Char) : Bool :=
  isNameStart c || ('0' ≤ c && c ≤ '9')

/-- The digits at the start of a text, of any script. -/
def leadingDigits (cs : List Char) : List Nat :=
  (cs.takeWhile isDigit).filterMap digit?

/-- An exponent, with its length. There is none without digits. -/
def exponent : List Char → Int × Nat
  | c :: cs =>
    let (negative, marks, cs) := match cs with
      | '-' :: cs => (true, 2, cs)
      | '+' :: cs => (false, 2, cs)
      | cs => (false, 1, cs)
    let ds := leadingDigits cs
    if (c == 'e' || c == 'E') && !ds.isEmpty then
      (withSign negative (digitsValue ds), marks + ds.length)
    else (0, 0)
  | [] => (0, 0)

/-- The digits after a point, with the length of the point. There are none without one. -/
def fraction : List Char → Nat × List Nat
  | '.' :: cs => (1, leadingDigits cs)
  | _ => (0, [])

/-- An unsigned number, with its length: digits, or a point and digits, or both in this order. -/
def number? (cs : List Char) : Option (Decimal × Nat) :=
  let whole := leadingDigits cs
  let rest := cs.drop whole.length
  let (point, places) := fraction rest
  if whole.isEmpty && places.isEmpty then none
  else
    let (e, n) := exponent (rest.drop (point + places.length))
    some (⟨digitsValue (whole ++ places), e - places.length⟩,
      whole.length + point + places.length + n)

/-- A name, if one starts here. -/
def name? : List Char → Option (List Char)
  | c :: cs => if isNameStart c then some (c :: cs.takeWhile isNamePart) else none
  | [] => none

def qualifiedName? (cs : List Char) : Option (List Char) :=
  if Shorthand.qualifier.toList.isPrefixOf cs then name? (cs.drop Shorthand.qualifier.length)
  else none

/-- What a qualified name means. -/
def ofQualified (name : String) : Lexeme :=
  match Expr.constants.lookup name with
  | some value => .token (.number value)
  | none =>
    if (Expr.function? name).isSome then .token (.func name)
    else .error (.unknownFunction name)

theorem ofQualified_eq_token {name : String} {k : Kind} (h : ofQualified name = .token k) :
    (∃ v, (name, v) ∈ Expr.constants ∧ k = .number v) ∨
      (Expr.function? name).isSome = true ∧ k = .func name := by
  unfold ofQualified at h
  split at h
  · next v hv =>
    cases h
    obtain ⟨l, l', he, -⟩ := List.lookup_eq_some_iff.1 hv
    exact .inl ⟨v, he ▸ List.mem_append_right l List.mem_cons_self, rfl⟩
  · split at h
    · next hf =>
      cases h
      exact .inr ⟨hf, rfl⟩
    · cases h

def variableNames : List String := ["x", "y"]

def ofName (name : String) : Lexeme :=
  if variableNames.contains name then .token (.var name)
  else .error (.unknownIdentifier name)

theorem ofName_eq_token {name : String} {k : Kind} (h : ofName name = .token k) :
    name ∈ variableNames ∧ k = .var name := by
  unfold ofName at h
  split at h
  · next hn =>
    cases h
    exact ⟨List.contains_iff_mem.1 hn, rfl⟩
  · cases h

def symbol? : List Char → Option (Kind × Nat)
  | '*' :: '*' :: _ => some (.caret, 2)
  | '^' :: _ => some (.caret, 1)
  | '+' :: _ => some (.plus, 1)
  | '-' :: _ => some (.minus, 1)
  | '*' :: _ => some (.star, 1)
  | '/' :: _ => some (.slash, 1)
  | '(' :: _ => some (.openParen, 1)
  | ')' :: _ => some (.closeParen, 1)
  | ',' :: _ => some (.comma, 1)
  | _ => none

/-- What stands at the start of a text, and its length. -/
def lexeme? (cs : List Char) : Option (Lexeme × Nat) :=
  match number? cs with
  | some (d, n) => some (.token (.number (d.toFloat false)), n)
  | none =>
    match qualifiedName? cs with
    | some name => some (ofQualified (String.ofList name), Shorthand.qualifier.length + name.length)
    | none =>
      match name? cs with
      | some name => some (ofName (String.ofList name), name.length)
      | none =>
        match symbol? cs with
        | some (kind, n) => some (.token kind, n)
        | none =>
          match (cs.takeWhile isBlank).length with
          | 0 => none
          | n => some (.blank, n)

/-- The tokens of a text from a position on. -/
def scanFrom (position : Nat) : List Char → Except GrammarError (List Token)
  | [] => .ok [⟨.finish, position⟩]
  | c :: cs =>
    match lexeme? (c :: cs) with
    | none => .error (.unexpectedCharacter c position)
    | some (.error e, _) => .error e
    | some (.blank, n) => scanFrom (position + n) (cs.drop (n - 1))
    | some (.token kind, n) => do
      let tokens ← scanFrom (position + n) (cs.drop (n - 1))
      return ⟨kind, position⟩ :: tokens
termination_by cs => cs.length

def scan (text : String) : Except GrammarError (List Token) :=
  scanFrom 0 text.toList

end Token

namespace GrammarError

open Token

/-- How many arguments a function wants. -/
def arity (f : Expr.Function) : String :=
  match f.maxArgs with
  | none => "at least " ++ toString f.minArgs
  | some _ => toString f.minArgs

def detail : GrammarError → String
  | empty => ""
  | unexpectedCharacter c position =>
    "unexpected character " ++ quotedChar c ++ " at position " ++ toString position
  | unknownFunction name => "unknown function " ++ quoted name
  | unknownIdentifier name => "unknown identifier " ++ quoted name
  | missingOpenParen found => "expected '(', got " ++ found.describe
  | missingCloseParen found => "missing ')' before " ++ found.describe
  | unexpectedToken token =>
    "unexpected " ++ token.describe ++ " at position " ++ toString token.position
  | endsUnexpectedly => "expression ends unexpectedly"
  | wrongArity f count =>
    "function " ++ quoted f.name ++ " expects " ++ arity f ++ " argument(s), got " ++ toString count
  | nestedTooDeeply => "expression is nested too deeply"

def message : GrammarError → String
  | empty => "Expression is empty"
  | e => "Invalid mathematical expression: " ++ e.detail

end GrammarError

end Relief
