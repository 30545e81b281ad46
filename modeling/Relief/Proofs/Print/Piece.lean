import Mathlib
import Relief.Proofs.Number.Layout
import Relief.Shorthand

/-!
Printed trees as rows of pieces. A piece is a word or a single character between words, and the pieces
that may stand side by side are few enough that no text runs into another.
-/
namespace Relief.Expr

open Relief.Token Relief.Number Relief.Scan

inductive Piece where
  | number (digits : List Char) (value : Float)
  | constant (name : String) (value : Float)
  | coordinate (name : String)
  | function (name : String)
  | mark (c : Char)

namespace Piece

def text : Piece → List Char
  | number digits _ => digits
  | constant name _ | coordinate name | function name => name.toList
  | mark c => [c]

/-- The text with its name qualified. -/
def spelledOut : Piece → List Char
  | constant name _ | function name => Shorthand.qualified name
  | p => p.text

/-- The tokens of a piece: one, or none for a blank. -/
def kinds : Piece → List Kind
  | number _ value | constant _ value => [.number value]
  | coordinate name => [.var name]
  | function name => [.func name]
  | mark c => ((symbol? [c]).map (·.1)).toList

/-- The characters between words. -/
def marks : List Char := ['^', '+', '-', '*', '/', '(', ')', ',', ' ']

/-- What tells the characters between words from those of words. -/
structure Between (c : Char) : Prop where
  ascii : c.toNat < 128
  letter : Text.isAsciiLetter c = false
  digit : Text.isDigit c = false
  name : Shorthand.continuesName c = false
  part : isNamePart c = false
  blank : c ≠ ' ' → Text.isBlank c = false

theorem between_of_mem {c : Char} (h : c ∈ marks) : Between c := by
  simp only [marks, List.mem_cons, List.not_mem_nil, or_false] at h
  rcases h with rfl | rfl | rfl | rfl | rfl | rfl | rfl | rfl | rfl
  all_goals exact ⟨by decide, by decide, by decide, by decide, by decide, by decide⟩

/-- Pieces that occur in the text of a tree. -/
inductive Proper : Piece → Prop where
  | number {w : List Char} {d : Decimal} {v : Float} : Printed w d → d.toFloat false = v →
    Proper (.number w v)
  | constant {name : String} {v : Float} : (name, v) ∈ constants → Proper (.constant name v)
  | coordinate {name : String} : name ∈ Token.variableNames → Proper (.coordinate name)
  | function {name : String} : name ∈ functions.map (·.name) → Proper (.function name)
  | mark {c : Char} : c ∈ marks → Proper (.mark c)

/-- Pieces that stand side by side. A word never touches another word, and only a function touches a
parenthesis that opens after it. -/
def Meets : Piece → Piece → Prop
  | .mark c, .mark d => (c, d) ∉ [(' ', ' '), (')', '('), ('*', '*')]
  | .mark c, _ => c ≠ ')'
  | .function _, .mark d => d = '('
  | _, .mark d => d ≠ '('
  | _, _ => False

/-- What a phrase begins with. -/
def Opens : Piece → Prop
  | .mark c => c ∈ ['(', '+', '-']
  | _ => True

/-- What a phrase ends with. -/
def Closes : Piece → Prop
  | .mark c => c = ')'
  | .function _ => False
  | _ => True

def enclosed (ps : List Piece) : List Piece := .mark '(' :: ps ++ [.mark ')']

def textOf (ps : List Piece) : List Char := ps.flatMap text

def spelledOutOf (ps : List Piece) : List Char := ps.flatMap spelledOut

def kindsOf (ps : List Piece) : List Kind := ps.flatMap kinds

end Piece

open Piece

/-- Characters that may stand between two operands. -/
structure Separator (ms : List Char) : Prop where
  ne_nil : ms ≠ []
  marks : ∀ c ∈ ms, c ∈ Piece.marks
  chain : (ms.map Piece.mark).IsChain Meets
  first : ∀ c ∈ ms.head?, c ≠ '('
  last : ∀ c ∈ ms.getLast?, c ≠ ')'

/-- A row of pieces that can be an operand. -/
structure Phrase (ps : List Piece) : Prop where
  proper : ∀ p ∈ ps, p.Proper
  chain : ps.IsChain Meets
  opens : ∃ p ∈ ps.head?, p.Opens
  closes : ∃ p ∈ ps.getLast?, p.Closes

namespace Phrase

variable {ps qs : List Piece} {ms : List Char} {p : Piece}

theorem ne_nil (h : Phrase ps) : ps ≠ [] := by
  rintro rfl
  obtain ⟨p, hp, -⟩ := h.opens
  cases hp

theorem single (h : p.Proper) (ho : p.Opens) (hc : p.Closes) : Phrase [p] where
  proper := by simpa using h
  chain := .singleton p
  opens := ⟨p, rfl, ho⟩
  closes := ⟨p, rfl, hc⟩

theorem meets_of_closes {c : Char} (h : p.Closes) (hc : c ≠ '(') : Meets p (.mark c) := by
  cases p with
  | mark d =>
    cases h
    simp [Meets, hc]
  | function name => exact h.elim
  | _ => exact hc

theorem meets_of_opens {c : Char} (h : p.Opens) (hc : c ≠ ')') : Meets (.mark c) p := by
  cases p with
  | mark d =>
    have hd : d ≠ ' ' ∧ d ≠ '*' := by
      constructor <;> rintro rfl <;> simp [Opens] at h
    simp [Meets, hc, hd]
  | _ => exact hc

/-- Two phrases with marks between them. -/
theorem glue (h : Phrase ps) (h' : Phrase qs) (hm : Separator ms) :
    Phrase (ps ++ (ms.map .mark ++ qs)) where
  proper := by
    intro p hp
    rw [List.mem_append, List.mem_append, List.mem_map] at hp
    obtain hp | ⟨c, hc, rfl⟩ | hp := hp
    · exact h.proper p hp
    · exact .mark (hm.marks c hc)
    · exact h'.proper p hp
  chain := by
    obtain ⟨p, hp, hcl⟩ := h.closes
    obtain ⟨q, hq, ho⟩ := h'.opens
    rw [List.isChain_append, List.isChain_append]
    refine ⟨h.chain, ⟨hm.chain, h'.chain, fun a ha b hb => ?_⟩, fun a ha b hb => ?_⟩
    · obtain rfl := Option.mem_unique hq hb
      rw [List.getLast?_map, Option.mem_map] at ha
      obtain ⟨c, hc, rfl⟩ := ha
      exact meets_of_opens ho (hm.last c hc)
    · obtain rfl := Option.mem_unique hp ha
      obtain ⟨c, cs, rfl⟩ := List.exists_cons_of_ne_nil hm.ne_nil
      cases hb
      exact meets_of_closes hcl (hm.first c rfl)
  opens := by
    obtain ⟨p, hp, ho⟩ := h.opens
    exact ⟨p, List.mem_head?_append_of_mem_head? hp, ho⟩
  closes := by
    obtain ⟨p, hp, hc⟩ := h'.closes
    rw [← List.append_assoc]
    exact ⟨p, List.mem_getLast?_append_of_mem_getLast? hp, hc⟩

theorem signed (h : Phrase ps) {c : Char} (hc : c ∈ ['+', '-']) : Phrase (.mark c :: ps) := by
  have hs : c ∈ marks ∧ c ∈ ['(', '+', '-'] ∧ c ≠ ')' := by
    simp only [List.mem_cons, List.not_mem_nil, or_false] at hc
    obtain rfl | rfl := hc <;> simp [marks]
  obtain ⟨p, hp, ho⟩ := h.opens
  obtain ⟨q, hq, hcl⟩ := h.closes
  obtain ⟨r, rs, rfl⟩ := List.exists_cons_of_ne_nil h.ne_nil
  cases hp
  exact {
    proper := List.forall_mem_cons.2 ⟨.mark hs.1, h.proper⟩
    chain := .cons_cons (meets_of_opens ho hs.2.2) h.chain
    opens := ⟨_, rfl, hs.2.1⟩
    closes := ⟨q, hq, hcl⟩ }

theorem enclosed (h : Phrase ps) : Phrase (Piece.enclosed ps) := by
  obtain ⟨p, hp, ho⟩ := h.opens
  obtain ⟨q, hq, hcl⟩ := h.closes
  have hc : (Piece.enclosed ps).IsChain Meets := by
    rw [Piece.enclosed, List.isChain_append, List.isChain_cons]
    refine ⟨⟨fun a ha => ?_, h.chain⟩, .singleton _, fun a ha b hb => ?_⟩
    · obtain rfl := Option.mem_unique hp ha
      exact meets_of_opens ho (by decide)
    · cases hb
      obtain rfl := Option.mem_unique (List.mem_getLast?_cons hq) ha
      exact meets_of_closes hcl (by decide)
  have hl : (Piece.enclosed ps).getLast? = some (.mark ')') := List.getLast?_append_cons _ _ _
  refine ⟨fun a ha => ?_, hc, ⟨.mark '(', rfl, by simp [Opens]⟩, ⟨.mark ')', hl, rfl⟩⟩
  rw [Piece.enclosed, List.mem_append, List.mem_cons, List.mem_singleton] at ha
  obtain (rfl | ha) | rfl := ha
  · exact .mark (by decide)
  · exact h.proper a ha
  · exact .mark (by decide)

/-- A call of a function. -/
theorem called (h : Phrase ps) {name : String} (hn : name ∈ functions.map (·.name)) :
    Phrase (.function name :: Piece.enclosed ps) := by
  have he := h.enclosed
  exact {
    proper := List.forall_mem_cons.2 ⟨.function hn, he.proper⟩
    chain := .cons_cons rfl he.chain
    opens := ⟨_, rfl, trivial⟩
    closes := by
      obtain ⟨q, hq, hcl⟩ := he.closes
      exact ⟨q, List.mem_getLast?_cons hq, hcl⟩ }

end Phrase

end Relief.Expr
