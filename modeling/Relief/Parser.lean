import Relief.Parser.Safety

/-!
The parser with its limit. It ends with a tree or says why the text is no expression.
-/
namespace Relief.Parser

/-- How many levels of nesting the parser allows. -/
def maxLevels : Nat := 990

/-- The tree of a spelled-out expression. -/
def parse (text : String) : Except GrammarError Expr :=
  match h : parseWithin maxLevels text with
  | .ok e => .ok e
  | .error (.grammar e) => .error e
  | .error .pastEnd => nomatch parseWithin_safe h
  | .error (.unknownFunction _) => nomatch parseWithin_safe h

end Relief.Parser
