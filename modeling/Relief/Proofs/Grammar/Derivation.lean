import Relief.Parser.Descent

/-!
Derivations in the grammar of expressions, as data. What a derivation spells is a row of tokens, and
no row has two derivations.
-/
namespace Relief.Grammar

open Relief.Token Relief.Parser

/-- The nonterminals. `terms`, `factors` and `moreArguments` are the repeated parts of the rules for
sums, products and arguments. -/
inductive Symbol where
  | additive
  | terms
  | multiplicative
  | factors
  | unary
  | power
  | atom
  | arguments
  | moreArguments

/-- One constructor for each alternative of each rule. -/
inductive Derivation : Symbol → Type where
  | additive : Derivation .multiplicative → Derivation .terms → Derivation .additive
  | endTerms : Derivation .terms
  | term (k : Kind) (op : String) (h : additiveOp? k = some op) :
      Derivation .multiplicative → Derivation .terms → Derivation .terms
  | multiplicative : Derivation .unary → Derivation .factors → Derivation .multiplicative
  | endFactors : Derivation .factors
  | factor (k : Kind) (op : String) (h : multiplicativeOp? k = some op) :
      Derivation .unary → Derivation .factors → Derivation .factors
  | signed (k : Kind) (op : String) (h : additiveOp? k = some op) :
      Derivation .unary → Derivation .unary
  | unsigned : Derivation .power → Derivation .unary
  | plain : Derivation .atom → Derivation .power
  | raised : Derivation .atom → Derivation .unary → Derivation .power
  | number (value : Float) : Derivation .atom
  | var (name : String) : Derivation .atom
  | parenthesized : Derivation .additive → Derivation .atom
  | call (name : String) : Derivation .arguments → Derivation .atom
  | noArguments : Derivation .arguments
  | someArguments : Derivation .additive → Derivation .moreArguments → Derivation .arguments
  | endArguments : Derivation .moreArguments
  | argument : Derivation .additive → Derivation .moreArguments → Derivation .moreArguments

/-- What a nonterminal stands for. A repeated part continues the expression to its left. -/
abbrev Meaning : Symbol → Type
  | .terms | .factors => Expr → Expr
  | .arguments | .moreArguments => List Expr
  | _ => Expr

namespace Derivation

variable {s : Symbol}

/-- The tokens that are derived, by their kinds. -/
@[simp] def yield {s : Symbol} : Derivation s → List Kind
  | additive m ts => m.yield ++ ts.yield
  | endTerms | endFactors | endArguments | noArguments => []
  | term k _ _ m ts => k :: (m.yield ++ ts.yield)
  | multiplicative u fs => u.yield ++ fs.yield
  | factor k _ _ u fs => k :: (u.yield ++ fs.yield)
  | signed k _ _ u => k :: u.yield
  | unsigned p => p.yield
  | plain a => a.yield
  | raised a u => a.yield ++ .caret :: u.yield
  | number value => [.number value]
  | var name => [.var name]
  | parenthesized a => .openParen :: (a.yield ++ [.closeParen])
  | call name as => .func name :: .openParen :: (as.yield ++ [.closeParen])
  | someArguments a as => a.yield ++ as.yield
  | argument a as => .comma :: (a.yield ++ as.yield)

/-- The tree: operators of one precedence are grouped to the left, powers to the right. -/
def tree {s : Symbol} : Derivation s → Meaning s
  | additive m ts => ts.tree m.tree
  | endTerms | endFactors => id
  | term _ op _ m ts => fun left => ts.tree (.binary op left m.tree)
  | multiplicative u fs => fs.tree u.tree
  | factor _ op _ u fs => fun left => fs.tree (.binary op left u.tree)
  | signed _ op _ u => .unary op u.tree
  | unsigned p => p.tree
  | plain a => a.tree
  | raised a u => .binary "^" a.tree u.tree
  | number value => .num value
  | var name => .var name
  | parenthesized a => a.tree
  | call name as => .call name as.tree
  | noArguments | endArguments => []
  | someArguments a as => a.tree :: as.tree
  | argument a as => a.tree :: as.tree

/-- Every function that is called is known and takes so many arguments. -/
def Allowed {s : Symbol} : Derivation s → Prop
  | endTerms | endFactors | endArguments | noArguments | number _ | var _ => True
  | additive m ts | term _ _ _ m ts => m.Allowed ∧ ts.Allowed
  | multiplicative u fs | factor _ _ _ u fs => u.Allowed ∧ fs.Allowed
  | signed _ _ _ u => u.Allowed
  | unsigned p => p.Allowed
  | plain a => a.Allowed
  | raised a u => a.Allowed ∧ u.Allowed
  | parenthesized a => a.Allowed
  | call name as => as.Allowed ∧ ∃ f, Expr.function? name = some f ∧ f.accepts as.tree.length
  | someArguments a as | argument a as => a.Allowed ∧ as.Allowed

/-- How many levels the parser needs. A repeated part is read on the level of its operands. -/
def levels {s : Symbol} : Derivation s → Nat
  | endTerms | endFactors | endArguments | noArguments => 0
  | number _ | var _ => 1
  | additive m ts => max m.levels ts.levels + 1
  | term _ _ _ m ts => max m.levels ts.levels
  | multiplicative u fs => max u.levels fs.levels + 1
  | factor _ _ _ u fs => max u.levels fs.levels
  | signed _ _ _ u => u.levels + 1
  | unsigned p => p.levels + 1
  | plain a => a.levels + 1
  | raised a u => max a.levels u.levels + 1
  | parenthesized a => a.levels + 1
  | call _ as => as.levels + 2
  | someArguments a as | argument a as => max a.levels as.levels

end Derivation

/-! ### What may follow -/

def isCaret : Kind → Bool
  | .caret => true
  | _ => false

def isClosing : Kind → Bool
  | .closeParen => true
  | _ => false

/-- The tokens that would continue what a nonterminal derives. Arguments go on to the parenthesis. -/
def continues (s : Symbol) (k : Kind) : Bool :=
  match s with
  | .atom => false
  | .unary | .power => isCaret k
  | .multiplicative | .factors => isCaret k || (multiplicativeOp? k).isSome
  | .additive | .terms => isCaret k || (multiplicativeOp? k).isSome || (additiveOp? k).isSome
  | .arguments | .moreArguments => !isClosing k

/-- There is a next token, and it does not continue what stands before it. -/
def Follows (s : Symbol) (ks : List Kind) : Prop :=
  ∃ k rest, ks = k :: rest ∧ continues s k = false

section Following

variable {ks rest : List Kind} {k : Kind} {op : String}

/-- What continues a nonterminal does not follow it. -/
theorem Follows.head {s : Symbol} (h : Follows s (k :: rest)) : continues s k = false := by
  obtain ⟨k', rest', he, hk⟩ := h
  obtain rfl : k = k' := (List.cons.inj he).1
  exact hk

theorem Follows.ne_cons {s : Symbol} (h : Follows s ks) (hk : continues s k = true) :
    ks ≠ k :: rest := by
  rintro rfl
  cases hk.symm.trans h.head

theorem Follows.atom {s : Symbol} (h : Follows s ks) : Follows .atom ks := by
  obtain ⟨k, rest, rfl, -⟩ := h
  exact ⟨k, rest, rfl, rfl⟩

theorem Follows.unary (h : Follows .multiplicative ks) : Follows .unary ks := by
  obtain ⟨k, rest, rfl, hk⟩ := h
  simp only [continues, Bool.or_eq_false_iff] at hk
  exact ⟨k, rest, rfl, hk.1⟩

theorem Follows.multiplicative (h : Follows .additive ks) : Follows .multiplicative ks := by
  obtain ⟨k, rest, rfl, hk⟩ := h
  simp only [continues, Bool.or_eq_false_iff] at hk
  exact ⟨k, rest, rfl, by simp [continues, hk.1]⟩

theorem follows_additiveOp (h : additiveOp? k = some op) : Follows .multiplicative (k :: rest) := by
  refine ⟨k, rest, rfl, ?_⟩
  cases k <;> first | rfl | cases h

theorem follows_multiplicativeOp (h : multiplicativeOp? k = some op) :
    Follows .unary (k :: rest) := by
  refine ⟨k, rest, rfl, ?_⟩
  cases k <;> first | rfl | cases h

theorem follows_closing {s : Symbol} : Follows s (.closeParen :: rest) :=
  ⟨_, rest, rfl, by cases s <;> rfl⟩

theorem follows_comma : Follows .additive (.comma :: rest) :=
  ⟨_, rest, rfl, rfl⟩

end Following

/-- A row of terms ends or begins with a sign, neither of which continues the first term. -/
theorem Derivation.follows_terms (d : Derivation .terms) {ks : List Kind}
    (h : Follows .additive ks) : Follows .multiplicative (d.yield ++ ks) := by
  cases d with
  | endTerms => exact h.multiplicative
  | term k op hk m ts => exact follows_additiveOp hk

theorem Derivation.follows_factors (d : Derivation .factors) {ks : List Kind}
    (h : Follows .multiplicative ks) : Follows .unary (d.yield ++ ks) := by
  cases d with
  | endFactors => exact h.unary
  | factor k op hk u fs => exact follows_multiplicativeOp hk

theorem Derivation.follows_moreArguments (d : Derivation .moreArguments) {ks : List Kind}
    (h : Follows .arguments ks) : Follows .additive (d.yield ++ ks) := by
  cases d with
  | endArguments =>
    obtain ⟨k, rest, rfl, hk⟩ := h
    cases k <;> first | exact follows_closing | cases hk
  | argument a as => exact follows_comma

/-! ### How a derivation begins -/

def beginsAtom : Kind → Bool
  | .number _ | .var _ | .func _ | .openParen => true
  | _ => false

theorem additiveOp?_of_beginsAtom {k : Kind} (h : beginsAtom k = true) : additiveOp? k = none := by
  cases k <;> first | rfl | cases h

namespace Derivation

theorem atom_begins (d : Derivation .atom) : ∃ k ks, d.yield = k :: ks ∧ beginsAtom k = true := by
  cases d with
  | number value => exact ⟨_, [], rfl, rfl⟩
  | var name => exact ⟨_, [], rfl, rfl⟩
  | parenthesized a => exact ⟨_, _, rfl, rfl⟩
  | call name as => exact ⟨_, _, rfl, rfl⟩

theorem power_begins (d : Derivation .power) : ∃ k ks, d.yield = k :: ks ∧ beginsAtom k = true := by
  cases d with
  | plain a => exact a.atom_begins
  | raised a u =>
    obtain ⟨k, ks, h, hk⟩ := a.atom_begins
    exact ⟨k, ks ++ .caret :: u.yield, by simp [yield, h], hk⟩

/-- No power begins with a sign. -/
theorem power_ne_cons (d : Derivation .power) {k : Kind} {op : String} {ks ks' : List Kind}
    (h : additiveOp? k = some op) : d.yield ++ ks ≠ k :: ks' := by
  obtain ⟨l, rest, hp, hl⟩ := d.power_begins
  rw [hp]
  intro he
  obtain rfl : l = k := (List.cons.inj he).1
  cases h.symm.trans (additiveOp?_of_beginsAtom hl)

theorem unary_begins (d : Derivation .unary) : ∃ k ks, d.yield = k :: ks ∧ isClosing k = false := by
  cases d with
  | signed k op hk u => exact ⟨k, _, rfl, by cases k <;> first | rfl | cases hk⟩
  | unsigned p =>
    obtain ⟨k, ks, h, hk⟩ := p.power_begins
    exact ⟨k, ks, h, by cases k <;> first | rfl | cases hk⟩

theorem additive_begins (d : Derivation .additive) :
    ∃ k ks, d.yield = k :: ks ∧ isClosing k = false := by
  cases d with
  | additive m ts =>
    cases m with
    | multiplicative u fs =>
      obtain ⟨k, ks, h, hk⟩ := u.unary_begins
      exact ⟨k, ks ++ fs.yield ++ ts.yield, by simp [yield, h], hk⟩

/-- What follows arguments is no further argument. -/
theorem additive_ne (d : Derivation .additive) {ks ks' : List Kind} (h : Follows .arguments ks) :
    d.yield ++ ks' ≠ ks := by
  obtain ⟨k, rest, hy, hk⟩ := d.additive_begins
  rw [hy]
  exact (h.ne_cons (by rw [continues, hk]; rfl)).symm

/-! ### Unambiguity -/

/-- Two derivations from one nonterminal agree if what they derive stands in the same row of tokens
and neither is continued. -/
theorem unambiguous {s : Symbol} (d d' : Derivation s) (ks ks' : List Kind) (h : Follows s ks)
    (h' : Follows s ks') (he : d.yield ++ ks = d'.yield ++ ks') : d = d' ∧ ks = ks' := by
  induction d generalizing ks ks' with
  | additive m ts ihm iht =>
    cases d' with
    | additive m' ts' =>
      simp only [yield, List.append_assoc] at he
      obtain ⟨rfl, hr⟩ := ihm m' _ _ (ts.follows_terms h) (ts'.follows_terms h') he
      obtain ⟨rfl, rfl⟩ := iht ts' _ _ h h' hr
      exact ⟨rfl, rfl⟩
  | endTerms =>
    cases d' with
    | endTerms => exact ⟨rfl, he⟩
    | term k op hk m ts => exact absurd he (h.ne_cons (by simp [continues, hk]))
  | term k op hk m ts ihm iht =>
    cases d' with
    | endTerms => exact absurd he.symm (h'.ne_cons (by simp [continues, hk]))
    | term k' op' hk' m' ts' =>
      simp only [yield, List.cons_append, List.append_assoc, List.cons.injEq] at he
      obtain ⟨rfl, he⟩ := he
      obtain rfl : op = op' := Option.some.inj (hk.symm.trans hk')
      obtain ⟨rfl, hr⟩ := ihm m' _ _ (ts.follows_terms h) (ts'.follows_terms h') he
      obtain ⟨rfl, rfl⟩ := iht ts' _ _ h h' hr
      exact ⟨rfl, rfl⟩
  | multiplicative u fs ihu ihf =>
    cases d' with
    | multiplicative u' fs' =>
      simp only [yield, List.append_assoc] at he
      obtain ⟨rfl, hr⟩ := ihu u' _ _ (fs.follows_factors h) (fs'.follows_factors h') he
      obtain ⟨rfl, rfl⟩ := ihf fs' _ _ h h' hr
      exact ⟨rfl, rfl⟩
  | endFactors =>
    cases d' with
    | endFactors => exact ⟨rfl, he⟩
    | factor k op hk u fs => exact absurd he (h.ne_cons (by simp [continues, hk]))
  | factor k op hk u fs ihu ihf =>
    cases d' with
    | endFactors => exact absurd he.symm (h'.ne_cons (by simp [continues, hk]))
    | factor k' op' hk' u' fs' =>
      simp only [yield, List.cons_append, List.append_assoc, List.cons.injEq] at he
      obtain ⟨rfl, he⟩ := he
      obtain rfl : op = op' := Option.some.inj (hk.symm.trans hk')
      obtain ⟨rfl, hr⟩ := ihu u' _ _ (fs.follows_factors h) (fs'.follows_factors h') he
      obtain ⟨rfl, rfl⟩ := ihf fs' _ _ h h' hr
      exact ⟨rfl, rfl⟩
  | signed k op hk u ih =>
    cases d' with
    | signed k' op' hk' u' =>
      simp only [yield, List.cons_append, List.cons.injEq] at he
      obtain ⟨rfl, he⟩ := he
      obtain rfl : op = op' := Option.some.inj (hk.symm.trans hk')
      obtain ⟨rfl, rfl⟩ := ih u' _ _ h h' he
      exact ⟨rfl, rfl⟩
    | unsigned p => exact absurd he.symm (p.power_ne_cons hk)
  | unsigned p ih =>
    cases d' with
    | signed k op hk u => exact absurd he (p.power_ne_cons hk)
    | unsigned p' =>
      obtain ⟨rfl, rfl⟩ := ih p' _ _ h h' he
      exact ⟨rfl, rfl⟩
  | plain a ih =>
    cases d' with
    | plain a' =>
      obtain ⟨rfl, rfl⟩ := ih a' _ _ h.atom h'.atom he
      exact ⟨rfl, rfl⟩
    | raised a' u' =>
      simp only [yield, List.append_assoc, List.cons_append] at he
      obtain ⟨-, rfl⟩ := ih a' _ _ h.atom ⟨_, _, rfl, rfl⟩ he
      cases h.head
  | raised a u iha ihu =>
    cases d' with
    | plain a' =>
      simp only [yield, List.append_assoc, List.cons_append] at he
      obtain ⟨-, rfl⟩ := iha a' _ _ ⟨_, _, rfl, rfl⟩ h'.atom he
      cases h'.head
    | raised a' u' =>
      simp only [yield, List.append_assoc, List.cons_append] at he
      obtain ⟨rfl, hr⟩ := iha a' _ _ ⟨_, _, rfl, rfl⟩ ⟨_, _, rfl, rfl⟩ he
      obtain ⟨rfl, rfl⟩ := ihu u' _ _ h h' (List.cons.inj hr).2
      exact ⟨rfl, rfl⟩
  | number value =>
    cases d' <;> simp only [yield, List.cons_append, List.nil_append, List.cons.injEq,
      Kind.number.injEq, reduceCtorEq, false_and] at he
    obtain ⟨rfl, rfl⟩ := he
    exact ⟨rfl, rfl⟩
  | var name =>
    cases d' <;> simp only [yield, List.cons_append, List.nil_append, List.cons.injEq,
      Kind.var.injEq, reduceCtorEq, false_and] at he
    obtain ⟨rfl, rfl⟩ := he
    exact ⟨rfl, rfl⟩
  | parenthesized a ih =>
    cases d' with
    | parenthesized a' =>
      simp only [yield, List.cons_append, List.append_assoc, List.nil_append, List.cons.injEq,
        true_and] at he
      obtain ⟨rfl, hr⟩ := ih a' _ _ follows_closing follows_closing he
      exact ⟨rfl, (List.cons.inj hr).2⟩
    | number _ | var _ | call _ _ => cases (List.cons.inj he).1
  | call name as ih =>
    cases d' with
    | call name' as' =>
      simp only [yield, List.cons_append, List.append_assoc, List.nil_append, List.cons.injEq,
        Kind.func.injEq, true_and] at he
      obtain ⟨rfl, he⟩ := he
      obtain ⟨rfl, hr⟩ := ih as' _ _ follows_closing follows_closing he
      exact ⟨rfl, (List.cons.inj hr).2⟩
    | number _ | var _ | parenthesized _ => cases (List.cons.inj he).1
  | noArguments =>
    cases d' with
    | noArguments => exact ⟨rfl, he⟩
    | someArguments a as =>
      rw [yield, yield, List.append_assoc] at he
      exact absurd he.symm (a.additive_ne h)
  | someArguments a as iha ihs =>
    cases d' with
    | noArguments =>
      rw [yield, yield, List.append_assoc] at he
      exact absurd he (a.additive_ne h')
    | someArguments a' as' =>
      simp only [yield, List.append_assoc] at he
      obtain ⟨rfl, hr⟩ := iha a' _ _ (as.follows_moreArguments h) (as'.follows_moreArguments h') he
      obtain ⟨rfl, rfl⟩ := ihs as' _ _ h h' hr
      exact ⟨rfl, rfl⟩
  | endArguments =>
    cases d' with
    | endArguments => exact ⟨rfl, he⟩
    | argument a as => exact absurd he (h.ne_cons rfl)
  | argument a as iha ihs =>
    cases d' with
    | endArguments => exact absurd he.symm (h'.ne_cons rfl)
    | argument a' as' =>
      simp only [yield, List.cons_append, List.append_assoc, List.cons.injEq, true_and] at he
      obtain ⟨rfl, hr⟩ := iha a' _ _ (as.follows_moreArguments h) (as'.follows_moreArguments h') he
      obtain ⟨rfl, rfl⟩ := ihs as' _ _ h h' hr
      exact ⟨rfl, rfl⟩

end Derivation

end Relief.Grammar
