import Relief.Parser.Descent

/-!
The limit on nesting changes nothing but whether a text is refused for it.
-/
namespace Relief.Grammar

open Relief.Token Relief.Parser

/-- The first outcome is the second, unless the limit was met. -/
def Agrees {α : Type} (r r' : Except Fault α) : Prop :=
  r = refuse .nestedTooDeeply ∨ r = r'

section Outcomes

variable {α β : Type} {r r' r'' : Except Fault α}

theorem Agrees.refl : Agrees r r := .inr rfl

theorem Agrees.trans (h : Agrees r r') (h' : Agrees r' r'') : Agrees r r'' := by
  obtain rfl | rfl := h
  · exact .inl rfl
  · exact h'

theorem Agrees.bind {f f' : α → Except Fault β} (h : Agrees r r')
    (hf : ∀ a, Agrees (f a) (f' a)) : Agrees (r >>= f) (r' >>= f') := by
  obtain rfl | rfl := h
  · exact .inl rfl
  · cases r with
    | error e => exact .refl
    | ok a => exact hf a

/-- Two procedures that agree on all tokens. -/
def AgreesOn (p p' : Parse α) : Prop := ∀ ts, Agrees (p ts) (p' ts)

end Outcomes

section Repetitions

variable {operand operand' : Parse Expr} (h : AgreesOn operand operand')

include h

theorem agrees_chain (op? : Kind → Option String) (limit : Nat) (left : Expr) :
    AgreesOn (chain op? operand limit left) (chain op? operand' limit left) := by
  intro ts
  induction limit generalizing left ts with
  | zero => exact .refl
  | succ limit ih =>
    cases ts with
    | nil => exact .refl
    | cons t ts =>
      simp only [chain]
      split
      · exact .refl
      · exact (h ts).bind fun r => ih _ _

theorem agrees_commaList (limit : Nat) :
    AgreesOn (commaList operand limit) (commaList operand' limit) := by
  intro ts
  induction limit generalizing ts with
  | zero => exact .refl
  | succ limit ih =>
    cases ts with
    | nil => exact .refl
    | cons t ts =>
      simp only [commaList]
      split
      · exact (h ts).bind fun r => (ih r.2).bind fun _ => .refl
      · exact .refl

theorem agrees_arguments : AgreesOn (arguments operand) (arguments operand') := by
  intro ts
  cases ts with
  | nil => exact .refl
  | cons t ts =>
    simp only [arguments]
    split
    · exact .refl
    · exact (h _).bind fun r => (agrees_commaList h _ r.2).bind fun _ => .refl

end Repetitions

/-- One more level changes nothing, for every procedure of the descent. -/
structure AgreesWithin (levels : Nat) : Prop where
  additive : AgreesOn (additive levels) (additive (levels + 1))
  multiplicative : AgreesOn (multiplicative levels) (multiplicative (levels + 1))
  unary : AgreesOn (unary levels) (unary (levels + 1))
  power : AgreesOn (power levels) (power (levels + 1))
  atom : AgreesOn (atom levels) (atom (levels + 1))
  functionCall : ∀ name, AgreesOn (functionCall levels name) (functionCall (levels + 1) name)

theorem agreesWithin (levels : Nat) : AgreesWithin levels := by
  induction levels with
  | zero =>
    constructor <;> intros <;> intro ts <;> refine .inl ?_ <;>
      simp only [Parser.additive, Parser.multiplicative, Parser.unary, Parser.power, Parser.atom,
        Parser.functionCall]
  | succ levels ih =>
    constructor
    case additive =>
      intro ts
      simp only [Parser.additive]
      exact (ih.multiplicative ts).bind fun r => agrees_chain ih.multiplicative _ _ _ _
    case multiplicative =>
      intro ts
      simp only [Parser.multiplicative]
      exact (ih.unary ts).bind fun r => agrees_chain ih.unary _ _ _ _
    case unary =>
      intro ts
      cases ts with
      | nil => exact .refl
      | cons t ts =>
        simp only [Parser.unary]
        split
        · exact (ih.unary ts).bind fun _ => .refl
        · exact ih.power _
    case power =>
      intro ts
      simp only [Parser.power]
      refine (ih.atom ts).bind fun ⟨base, rest⟩ => ?_
      cases rest with
      | nil => exact .refl
      | cons t rest =>
        dsimp only
        split
        · exact (ih.unary rest).bind fun _ => .refl
        · exact .refl
    case atom =>
      intro ts
      cases ts with
      | nil => exact .refl
      | cons t ts =>
        simp only [Parser.atom]
        split
        · exact .refl
        · exact .refl
        · exact ih.functionCall _ ts
        · exact (ih.additive ts).bind fun _ => .refl
        · exact .refl
        · exact .refl
    case functionCall =>
      intro name ts
      simp only [Parser.functionCall]
      split
      · exact .refl
      · refine Agrees.bind .refl fun rest => ?_
        exact (agrees_arguments ih.additive rest).bind fun _ => .refl

/-- More levels change nothing but a refusal for the limit. -/
theorem parseWithin_agrees (text : String) {levels levels' : Nat} (h : levels ≤ levels') :
    Agrees (parseWithin levels text) (parseWithin levels' text) := by
  induction h with
  | refl => exact .refl
  | step _ ih =>
    refine ih.trans (Agrees.bind .refl fun ts => ?_)
    exact ((agreesWithin _).additive ts).bind fun _ => .refl

end Relief.Grammar
