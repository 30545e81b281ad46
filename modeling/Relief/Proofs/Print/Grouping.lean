import Mathlib
import Relief.Proofs.Grammar.Derivation
import Relief.Proofs.Print.Tree

/-!
The tokens of a printed tree are derived as the tree: the parentheses that are printed are those that
the grammar needs.
-/
namespace Relief.Grammar

open Relief.Token Relief.Parser Relief.Expr Relief.Expr.Piece

/-- Repeated parts can be continued by one more operand. -/
def Continues : (s : Symbol) → Derivation s → Prop
  | .terms, ts => ∀ k op, additiveOp? k = some op → ∀ m : Derivation .multiplicative, m.Allowed →
    ts.Allowed → ∃ ts' : Derivation .terms, ts'.yield = ts.yield ++ k :: m.yield ∧
      (∀ left, ts'.tree left = .binary op (ts.tree left) m.tree) ∧ ts'.Allowed ∧
      ts'.levels = max ts.levels m.levels
  | .factors, fs => ∀ k op, multiplicativeOp? k = some op → ∀ u : Derivation .unary, u.Allowed →
    fs.Allowed → ∃ fs' : Derivation .factors, fs'.yield = fs.yield ++ k :: u.yield ∧
      (∀ left, fs'.tree left = .binary op (fs.tree left) u.tree) ∧ fs'.Allowed ∧
      fs'.levels = max fs.levels u.levels
  | _, _ => True

theorem continues_derivation {s : Symbol} (d : Derivation s) : Continues s d := by
  induction d with
  | endTerms =>
    intro k op hk m hm _
    exact ⟨.term k op hk m .endTerms, by simp [Derivation.yield], fun _ => rfl, ⟨hm, trivial⟩,
      by simp [Derivation.levels]⟩
  | term k' op' hk' m' ts _ ih =>
    intro k op hk m hm ha
    obtain ⟨ts', hy, ht, ha', hl⟩ := ih k op hk m hm ha.2
    exact ⟨.term k' op' hk' m' ts', by simp [Derivation.yield, hy], fun _ => ht _, ⟨ha.1, ha'⟩,
      by simp [Derivation.levels, hl, max_assoc]⟩
  | endFactors =>
    intro k op hk u hu _
    exact ⟨.factor k op hk u .endFactors, by simp [Derivation.yield], fun _ => rfl, ⟨hu, trivial⟩,
      by simp [Derivation.levels]⟩
  | factor k' op' hk' u' fs _ ih =>
    intro k op hk u hu ha
    obtain ⟨fs', hy, ht, ha', hl⟩ := ih k op hk u hu ha.2
    exact ⟨.factor k' op' hk' u' fs', by simp [Derivation.yield, hy], fun _ => ht _, ⟨ha.1, ha'⟩,
      by simp [Derivation.levels, hl, max_assoc]⟩
  | _ => trivial

/-- Tokens derived from a nonterminal as something, on so many levels. -/
def DerivedAs (s : Symbol) (ks : List Kind) (t : Meaning s) (n : Nat) : Prop :=
  ∃ d : Derivation s, d.yield = ks ∧ d.tree = t ∧ d.Allowed ∧ d.levels ≤ n

namespace DerivedAs

variable {ks ks' : List Kind} {t t' : Expr} {n n' : Nat} {k : Kind} {op : String}

theorem mono {s : Symbol} {t : Meaning s} (h : DerivedAs s ks t n) (hn : n ≤ n') :
    DerivedAs s ks t n' := by
  obtain ⟨d, hy, ht, ha, hl⟩ := h
  exact ⟨d, hy, ht, ha, hl.trans hn⟩

theorem plain (h : DerivedAs .atom ks t n) : DerivedAs .power ks t (n + 1) := by
  obtain ⟨d, hy, ht, ha, hl⟩ := h
  exact ⟨.plain d, hy, ht, ha, Nat.succ_le_succ hl⟩

theorem unsigned (h : DerivedAs .power ks t n) : DerivedAs .unary ks t (n + 1) := by
  obtain ⟨d, hy, ht, ha, hl⟩ := h
  exact ⟨.unsigned d, hy, ht, ha, Nat.succ_le_succ hl⟩

theorem multiplicative (h : DerivedAs .unary ks t n) : DerivedAs .multiplicative ks t (n + 1) := by
  obtain ⟨d, hy, ht, ha, hl⟩ := h
  refine ⟨.multiplicative d .endFactors, ?_, ht, ⟨ha, trivial⟩, ?_⟩
  · simpa [Derivation.yield] using hy
  · simpa [Derivation.levels] using hl

theorem additive (h : DerivedAs .multiplicative ks t n) : DerivedAs .additive ks t (n + 1) := by
  obtain ⟨d, hy, ht, ha, hl⟩ := h
  refine ⟨.additive d .endTerms, ?_, ht, ⟨ha, trivial⟩, ?_⟩
  · simpa [Derivation.yield] using hy
  · simpa [Derivation.levels] using hl

theorem parenthesized (h : DerivedAs .additive ks t n) :
    DerivedAs .atom (.openParen :: (ks ++ [.closeParen])) t (n + 1) := by
  obtain ⟨d, rfl, ht, ha, hl⟩ := h
  exact ⟨.parenthesized d, rfl, ht, ha, Nat.succ_le_succ hl⟩

theorem signed (hk : additiveOp? k = some op) (h : DerivedAs .unary ks t n) :
    DerivedAs .unary (k :: ks) (.unary op t) (n + 1) := by
  obtain ⟨d, rfl, rfl, ha, hl⟩ := h
  exact ⟨.signed k op hk d, rfl, rfl, ha, Nat.succ_le_succ hl⟩

theorem raised (h : DerivedAs .atom ks t n) (h' : DerivedAs .unary ks' t' n) :
    DerivedAs .power (ks ++ .caret :: ks') (.binary "^" t t') (n + 1) := by
  obtain ⟨d, rfl, rfl, ha, hl⟩ := h
  obtain ⟨d', rfl, rfl, ha', hl'⟩ := h'
  exact ⟨.raised d d', rfl, rfl, ⟨ha, ha'⟩, Nat.succ_le_succ (Nat.max_le.2 ⟨hl, hl'⟩)⟩

theorem sum (hk : additiveOp? k = some op) (h : DerivedAs .additive ks t (n + 1))
    (h' : DerivedAs .multiplicative ks' t' n) :
    DerivedAs .additive (ks ++ k :: ks') (.binary op t t') (n + 1) := by
  obtain ⟨d, rfl, rfl, ha, hl⟩ := h
  obtain ⟨d', rfl, rfl, ha', hl'⟩ := h'
  cases d with
  | additive m ts =>
    obtain ⟨ts', h1, h2, h3, h4⟩ := continues_derivation ts k op hk d' ha' ha.2
    simp only [Derivation.levels, Nat.add_le_add_iff_right, Nat.max_le] at hl
    refine ⟨.additive m ts', ?_, h2 _, ⟨ha.1, h3⟩, ?_⟩
    · simp [Derivation.yield, h1]
    · rw [Derivation.levels, h4]
      exact Nat.succ_le_succ (Nat.max_le.2 ⟨hl.1, Nat.max_le.2 ⟨hl.2, hl'⟩⟩)

theorem product (hk : multiplicativeOp? k = some op) (h : DerivedAs .multiplicative ks t (n + 1))
    (h' : DerivedAs .unary ks' t' n) :
    DerivedAs .multiplicative (ks ++ k :: ks') (.binary op t t') (n + 1) := by
  obtain ⟨d, rfl, rfl, ha, hl⟩ := h
  obtain ⟨d', rfl, rfl, ha', hl'⟩ := h'
  cases d with
  | multiplicative u fs =>
    obtain ⟨fs', h1, h2, h3, h4⟩ := continues_derivation fs k op hk d' ha' ha.2
    simp only [Derivation.levels, Nat.add_le_add_iff_right, Nat.max_le] at hl
    refine ⟨.multiplicative u fs', ?_, h2 _, ⟨ha.1, h3⟩, ?_⟩
    · simp [Derivation.yield, h1]
    · rw [Derivation.levels, h4]
      exact Nat.succ_le_succ (Nat.max_le.2 ⟨hl.1, Nat.max_le.2 ⟨hl.2, hl'⟩⟩)

theorem moreArguments {args : List Expr}
    (h : ∀ arg ∈ args, DerivedAs .additive (kindsOf arg.pieces) arg n) :
    DerivedAs .moreArguments (args.flatMap fun arg => .comma :: kindsOf arg.pieces) args n := by
  induction args with
  | nil => exact ⟨.endArguments, rfl, rfl, trivial, Nat.zero_le _⟩
  | cons arg args ih =>
    obtain ⟨d, hy, ht, ha, hl⟩ := h arg List.mem_cons_self
    obtain ⟨d', hy', ht', ha', hl'⟩ := ih fun a ha => h a (List.mem_cons_of_mem _ ha)
    refine ⟨.argument d d', ?_, ?_, ⟨ha, ha'⟩, Nat.max_le.2 ⟨hl, hl'⟩⟩
    · rw [Derivation.yield, hy, hy', List.flatMap_cons, List.cons_append]
    · rw [Derivation.tree, ht, ht']

theorem kindsOf_argumentPieces (arg : Expr) (args : List Expr) :
    kindsOf (argumentPieces (arg :: args)) =
      kindsOf arg.pieces ++ args.flatMap fun arg => .comma :: kindsOf arg.pieces := by
  induction args generalizing arg with
  | nil => simp [argumentPieces]
  | cons arg' args ih =>
    rw [argumentPieces_cons, List.flatMap_cons, List.cons_append, ← ih]
    simp [kindsOf, Piece.kinds, symbol?]

theorem called {f : Function} {args : List Expr} (hf : f ∈ functions)
    (ha : f.accepts args.length = true)
    (h : ∀ arg ∈ args, DerivedAs .additive (kindsOf arg.pieces) arg n) :
    DerivedAs .atom (.func f.name :: .openParen :: (kindsOf (argumentPieces args) ++ [.closeParen]))
      (.call f.name args) (n + 2) := by
  cases args with
  | nil => exact absurd rfl (Function.ne_nil_of_accepts ha)
  | cons arg args =>
    obtain ⟨d, hy, ht, hd, hl⟩ := h arg List.mem_cons_self
    obtain ⟨d', hy', ht', hd', hl'⟩ := moreArguments fun a ha => h a (List.mem_cons_of_mem _ ha)
    refine ⟨.call f.name (.someArguments d d'), ?_, ?_, ⟨⟨hd, hd'⟩, f, ?_, ?_⟩, ?_⟩
    · rw [Derivation.yield, Derivation.yield, hy, hy', kindsOf_argumentPieces]
    · rw [Derivation.tree, Derivation.tree, ht, ht']
    · exact function?_name hf
    · rwa [Derivation.tree, ht, ht']
    · exact Nat.add_le_add_right (Nat.max_le.2 ⟨hl, hl'⟩) 2

end DerivedAs

end Relief.Grammar

namespace Relief.Expr

open Relief.Token Relief.Parser Relief.Grammar Relief.Expr.Piece

variable {ks : List Kind} {e : Expr} {n r r' : Nat}

/-- How tightly a tree holds together: sums 1, products 2, signs 3, powers 4 and atoms 5. -/
def rank : Expr → Nat
  | unary _ _ => 3
  | e => (precedence? e).getD 5

/-- Tokens derived as a tree from every nonterminal that holds together no more than `r`. -/
structure Grouped (r : Nat) (ks : List Kind) (e : Expr) (n : Nat) : Prop where
  additive : DerivedAs .additive ks e (n + 5)
  multiplicative : 2 ≤ r → DerivedAs .multiplicative ks e (n + 4)
  unary : 3 ≤ r → DerivedAs .unary ks e (n + 3)
  power : 4 ≤ r → DerivedAs .power ks e (n + 2)
  atom : 5 ≤ r → DerivedAs .atom ks e (n + 1)

namespace Grouped

theorem mono (h : Grouped r ks e n) (hr : r' ≤ r) : Grouped r' ks e n where
  additive := h.additive
  multiplicative hle := h.multiplicative (hle.trans hr)
  unary hle := h.unary (hle.trans hr)
  power hle := h.power (hle.trans hr)
  atom hle := h.atom (hle.trans hr)

theorem of_additive (h : DerivedAs .additive ks e (n + 5)) : Grouped 1 ks e n := by
  refine ⟨h, fun hr => ?_, fun hr => ?_, fun hr => ?_, fun hr => ?_⟩ <;> omega

theorem of_multiplicative (h : DerivedAs .multiplicative ks e (n + 4)) : Grouped 2 ks e n := by
  refine ⟨h.additive, fun _ => h, fun hr => ?_, fun hr => ?_, fun hr => ?_⟩ <;> omega

theorem of_unary (h : DerivedAs .unary ks e (n + 3)) : Grouped 3 ks e n := by
  refine ⟨h.multiplicative.additive, fun _ => h.multiplicative, fun _ => h, fun hr => ?_,
    fun hr => ?_⟩ <;> omega

theorem of_power (h : DerivedAs .power ks e (n + 2)) : Grouped 4 ks e n := by
  have hu := h.unsigned
  refine ⟨hu.multiplicative.additive, fun _ => hu.multiplicative, fun _ => hu, fun _ => h,
    fun hr => ?_⟩
  omega

theorem of_atom (h : DerivedAs .atom ks e (n + 1)) : Grouped 5 ks e n := by
  have hu := h.plain.unsigned
  exact ⟨hu.multiplicative.additive, fun _ => hu.multiplicative, fun _ => hu, fun _ => h.plain,
    fun _ => h⟩

theorem weaken {n' : Nat} (h : Grouped r ks e n) (hn : n ≤ n') : Grouped r ks e n' where
  additive := h.additive.mono (by omega)
  multiplicative hle := (h.multiplicative hle).mono (by omega)
  unary hle := (h.unary hle).mono (by omega)
  power hle := (h.power hle).mono (by omega)
  atom hle := (h.atom hle).mono (by omega)

end Grouped

/-- An operand without parentheses holds together tightly enough. -/
theorem le_rank_of_needsParens {precedence : Nat} {tightSide : Bool}
    (hp : precedence = 1 ∨ precedence = 2 ∨ precedence = 4)
    (h : needsParens e precedence tightSide = false) :
    (if tightSide then precedence + 1 else precedence) ≤ rank e := by
  cases e with
  | unary op operand =>
    simp only [needsParens, decide_eq_false_iff_not] at h
    simp only [rank]
    split <;> omega
  | binary op left right =>
    simp only [needsParens] at h
    simp only [rank, precedence?]
    cases ho : operator? op with
    | none =>
      simp only [Option.map_none, Option.getD_none]
      split <;> omega
    | some o =>
      rw [ho] at h
      simp only [Bool.or_eq_false_iff, Bool.and_eq_false_iff, decide_eq_false_iff_not,
        beq_eq_false_iff_ne] at h
      simp only [Option.map_some, Option.getD_some]
      split
      · next ht =>
        rw [ht] at h
        simp at h
        omega
      · omega
  | _ =>
    simp only [rank, precedence?, Option.getD_none]
    split <;> omega

theorem kindsOf_append (ps qs : List Piece) : kindsOf (ps ++ qs) = kindsOf ps ++ kindsOf qs :=
  List.flatMap_append

theorem kindsOf_enclosed (ps : List Piece) :
    kindsOf (enclosed ps) = .openParen :: (kindsOf ps ++ [.closeParen]) := by
  simp [kindsOf, enclosed, Piece.kinds, symbol?]

theorem grouped_enclosed (h : DerivedAs .additive ks e (n + 5)) :
    Grouped 5 (.openParen :: (ks ++ [.closeParen])) e (n + 5) :=
  .of_atom h.parenthesized

theorem grouped_operand (r precedence : Nat) (tightSide : Bool)
    (hp : precedence = 1 ∨ precedence = 2 ∨ precedence = 4)
    (h : Grouped (rank e) (kindsOf e.pieces) e n)
    (hr : r ≤ if tightSide then precedence + 1 else precedence) :
    Grouped r (kindsOf (operandPieces e e.pieces precedence tightSide)) e (n + 5) := by
  unfold operandPieces
  split
  · rw [kindsOf_enclosed]
    refine (grouped_enclosed h.additive).mono ?_
    split at hr <;> omega
  · next hn =>
    rw [Bool.not_eq_true] at hn
    exact (h.mono (hr.trans (le_rank_of_needsParens hp hn))).weaken (by omega)

theorem kinds_numberPiece (v : Float) : kindsOf [numberPiece v] = [.number v] := by
  unfold numberPiece
  split <;> rfl

theorem grouped_unary {op : String} (ho : op ∈ ["+", "-"])
    (h : Grouped (rank e) (kindsOf e.pieces) e n) :
    Grouped 3 (kindsOf (unary op e).pieces) (unary op e) (n + 7) := by
  have hu : DerivedAs .unary (kindsOf (if (precedence? e).any (· < 4) then enclosed e.pieces
      else e.pieces)) e (n + 8) := by
    split
    · rw [kindsOf_enclosed]
      exact (grouped_enclosed h.additive).unary (by omega)
    · next hn =>
      have hr : 3 ≤ rank e := by
        unfold rank
        split
        · omega
        · cases hp : precedence? e with
          | none => simp
          | some p =>
            rw [hp] at hn
            simp at hn ⊢
            omega
      exact (h.unary hr).mono (by omega)
  simp only [List.mem_cons, List.not_mem_nil, or_false] at ho
  rcases ho with rfl | rfl
  all_goals exact .of_unary (.mono (.signed rfl hu) (by omega))

theorem kindsOf_binary {op : String} {o : Operator} (left right : Expr) (ho : operator? op = some o) :
    kindsOf (binary op left right).pieces =
      kindsOf (operandPieces left left.pieces o.precedence (op == "^")) ++
        (kindsOf ((separator op).map .mark) ++
          kindsOf (operandPieces right right.pieces o.precedence (op != "^"))) := by
  rw [pieces]
  simp only [ho, kindsOf_append]

theorem grouped_binary {op : String} {e' : Expr} (ho : op ∈ operators.map (·.1))
    (h : Grouped (rank e) (kindsOf e.pieces) e n)
    (h' : Grouped (rank e') (kindsOf e'.pieces) e' n) :
    Grouped (rank (binary op e e')) (kindsOf (binary op e e').pieces) (binary op e e') (n + 7) := by
  simp only [operators, List.map_cons, List.map_nil, List.mem_cons, List.not_mem_nil, or_false] at ho
  rcases ho with rfl | rfl | rfl | rfl | rfl
  case inl | inr.inl =>
    have hl := (grouped_operand 1 1 false (.inl rfl) h (by simp)).additive
    have hr := (grouped_operand 2 1 true (.inl rfl) h' (by simp)).multiplicative (by omega)
    rw [kindsOf_binary e e' rfl]
    exact .of_additive (.mono (.sum rfl hl hr) (by omega))
  case inr.inr.inl | inr.inr.inr.inl =>
    have hl := (grouped_operand 2 2 false (.inr (.inl rfl)) h (by simp)).multiplicative (by omega)
    have hr := (grouped_operand 3 2 true (.inr (.inl rfl)) h' (by simp)).unary (by omega)
    rw [kindsOf_binary e e' rfl]
    exact .of_multiplicative (.mono (.product rfl hl hr) (by omega))
  case inr.inr.inr.inr =>
    have hl := (grouped_operand 5 4 true (.inr (.inr rfl)) h (by simp)).atom (by omega)
    have hr := (grouped_operand 3 4 false (.inr (.inr rfl)) h' (by simp)).unary (by omega)
    rw [kindsOf_binary e e' rfl]
    exact .of_power (.mono (.raised (.mono hl (by omega)) hr) (by omega))

/-- A printed tree is derived as itself, with at most seven levels for each of its own. -/
theorem grouped_pieces (h : WellFormed IsMagnitude e) :
    ∃ n, n + 7 = 7 * e.depth ∧ Grouped (rank e) (kindsOf e.pieces) e n := by
  induction h with
  | @num v h =>
    refine ⟨0, rfl, .of_atom ?_⟩
    rw [pieces, kinds_numberPiece]
    exact ⟨.number v, rfl, rfl, trivial, Nat.le_refl _⟩
  | @var name h => exact ⟨0, rfl, .of_atom ⟨.var name, rfl, rfl, trivial, Nat.le_refl _⟩⟩
  | @unary op operand ho _ ih =>
    obtain ⟨n, hn, h⟩ := ih
    refine ⟨n + 7, ?_, grouped_unary ho h⟩
    rw [Expr.depth]
    omega
  | @binary op left right ho _ _ ihl ihr =>
    obtain ⟨n, hn, hl⟩ := ihl
    obtain ⟨n', hn', hr⟩ := ihr
    refine ⟨max n n' + 7, ?_, grouped_binary ho (hl.weaken (le_max_left _ _))
      (hr.weaken (le_max_right _ _))⟩
    rw [Expr.depth]
    omega
  | @call f args hf ha _ ih =>
    have hargs : ∀ arg ∈ args, DerivedAs .additive (kindsOf arg.pieces) arg (7 * depthOfAll args) := by
      intro arg harg
      obtain ⟨n, hn, h⟩ := ih arg harg
      have := depth_le_depthOfAll harg
      exact h.additive.mono (by omega)
    refine ⟨7 * depthOfAll args + 7, ?_, .of_atom ?_⟩
    · rw [Expr.depth]
      omega
    · have hc := DerivedAs.called hf ha hargs
      rw [← kindsOf_enclosed] at hc
      rw [pieces]
      exact hc.mono (by omega)

end Relief.Expr
