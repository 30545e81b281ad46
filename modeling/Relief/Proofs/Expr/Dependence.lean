import Mathlib
import Relief.Expr.Eval
import Relief.Proofs.Expr.WellFormed

/-!
What the value of a tree depends on: only the coordinates that the names of its variables stand for. An
argument in which a function stores its result is such a variable too, so that points which agree before a
tree is evaluated agree afterwards.
-/
namespace Relief.Expr

variable {names : List String} {name : String} {p q : Point} {v : Float} {a : Operand}

/-- Whether two points are the same in the coordinates that some names stand for. -/
def Agree (names : List String) (p q : Point) : Prop :=
  ∀ name ∈ names, (Operand.ofName name).read p = (Operand.ofName name).read q

/-- Numbers, and the coordinates that some names stand for. -/
inductive Among (names : List String) : Operand → Prop where
  | value (v : Float) : Among names (.value v)
  | name {name : String} : name ∈ names → Among names (.ofName name)

/-! ### Names -/

theorem ofName_of_ne (h : name ≠ "x") : Operand.ofName name = .y := by
  rw [Operand.ofName, if_neg (by simpa using h)]

theorem agree_of_coordinates (hx : "x" ∈ names → p.x = q.x)
    (hy : ∀ name ∈ names, name ≠ "x" → p.y = q.y) : Agree names p q := by
  intro name hname
  by_cases hn : name = "x"
  · subst hn
    exact hx hname
  · rw [ofName_of_ne hn]
    exact hy name hname hn

/-! ### Operands -/

theorem Among.read_eq (h : Among names a) (hpq : Agree names p q) : a.read p = a.read q := by
  cases h with
  | value v => rfl
  | name hn => exact hpq _ hn

/-- Whether an operand can be stored in does not depend on the point. -/
theorem store_eq_none (h : a.store p v = none) (q : Point) : a.store q v = none := by
  cases a with
  | value => rfl
  | x | y => cases h

/-- What is stored in a coordinate is the same at both points, and the other coordinate stays. -/
theorem Agree.store {p' : Point} (hpq : Agree names p q) (h : a.store p v = some p') :
    ∃ q', a.store q v = some q' ∧ Agree names p' q' := by
  have hread : ∀ name ∈ names, ∀ b, Operand.ofName name = b → b.read p = b.read q :=
    fun name hname b hb => hb ▸ hpq name hname
  cases a with
  | value w => cases h
  | x =>
    cases h
    refine ⟨_, rfl, fun name hname => ?_⟩
    cases hb : Operand.ofName name with
    | x | value => rfl
    | y => exact hread name hname .y hb
  | y =>
    cases h
    refine ⟨_, rfl, fun name hname => ?_⟩
    cases hb : Operand.ofName name with
    | y | value => rfl
    | x => exact hread name hname .x hb

theorem among_negateIf (op : String) (h : Among names a) (hpq : Agree names p q) :
    negateIf op p a = negateIf op q a ∧ Among names (negateIf op p a) := by
  unfold negateIf
  rw [h.read_eq hpq]
  split
  · exact ⟨rfl, .value _⟩
  · exact ⟨rfl, h⟩

/-! ### Two runs -/

/-- Two results that cannot be told apart: one failure, or one value and points that agree. -/
inductive Alike (names : List String) {α : Type} (P : α → Prop) :
    Except Fault (α × Point) → Except Fault (α × Point) → Prop where
  | error (fault : Fault) : Alike names P (.error fault) (.error fault)
  | ok {a : α} {p q : Point} : P a → Agree names p q → Alike names P (.ok (a, p)) (.ok (a, q))

theorem Alike.bind {α β : Type} {P : α → Prop} {Q : β → Prop} {r r' : Except Fault (α × Point)}
    {f f' : α × Point → Except Fault (β × Point)} (h : Alike names P r r')
    (hf : ∀ a p q, P a → Agree names p q → Alike names Q (f (a, p)) (f' (a, q))) :
    Alike names Q (r >>= f) (r' >>= f') := by
  cases h with
  | error fault => exact .error fault
  | ok ha hpq => exact hf _ _ _ ha hpq

theorem foldl_read (g : Float → Float → Float) {as : List Operand} (has : ∀ a ∈ as, Among names a)
    (hpq : Agree names p q) (v : Float) :
    as.foldl (fun v o => g v (o.read p)) v = as.foldl (fun v o => g v (o.read q)) v :=
  List.foldl_ext _ _ v fun _ a ha => by rw [(has a ha).read_eq hpq]

/-- A function makes the same of the same arguments, wherever it stores it. -/
theorem alike_applyFunction (f : Function) {as : List Operand} (has : ∀ a ∈ as, Among names a)
    (hpq : Agree names p q) :
    Alike names (Among names) (applyFunction f as p) (applyFunction f as q) := by
  obtain ⟨name, rule⟩ := f
  match rule, as with
  | .elementwise _, [] | .strict _, [] | .fold _, [] => exact .error _
  | .elementwise g, [a] | .strict g, [a] =>
    have hread := (has a List.mem_cons_self).read_eq hpq
    simp only [applyFunction, hread]
    exact .ok (.value _) hpq
  | .elementwise g, [a, target] =>
    have hread := (has a List.mem_cons_self).read_eq hpq
    simp only [applyFunction, hread]
    cases hp : target.store p (g (a.read q)) with
    | none =>
      rw [store_eq_none hp q]
      exact .error _
    | some p' =>
      obtain ⟨q', hq, hpq'⟩ := hpq.store hp
      rw [hq]
      exact .ok (has target (by simp)) hpq'
  | .elementwise _, _ :: _ :: _ :: _ | .strict _, _ :: _ :: _ => exact .error _
  | .fold g, [a] => exact .ok (has a List.mem_cons_self) hpq
  | .fold g, a :: b :: rest =>
    obtain ⟨ha, hrest⟩ := List.forall_mem_cons.1 has
    simp only [applyFunction, ha.read_eq hpq, foldl_read g hrest hpq]
    exact .ok (.value _) hpq

theorem alike_evalAllWithin {depth : Nat} {args : List Expr}
    (ih : ∀ e : Expr, e.variableNames ⊆ names → ∀ p q, Agree names p q →
      Alike names (Among names) (e.evalWithin depth p) (e.evalWithin depth q))
    (h : variableNamesOfAll args ⊆ names) (hpq : Agree names p q) :
    Alike names (fun as => ∀ a ∈ as, Among names a) (evalAllWithin depth args p)
      (evalAllWithin depth args q) := by
  induction args generalizing p q with
  | nil =>
    rw [evalAllWithin, evalAllWithin]
    exact .ok (fun _ ha => absurd ha List.not_mem_nil) hpq
  | cons arg args ihargs =>
    rw [variableNamesOfAll] at h
    obtain ⟨harg, hargs⟩ := joinNames_subset.1 h
    rw [evalAllWithin, evalAllWithin]
    refine (ih arg harg p q hpq).bind fun a p q ha hpq => ?_
    refine (ihargs hargs hpq).bind fun as p q has hpq => ?_
    exact .ok (List.forall_mem_cons.2 ⟨ha, has⟩) hpq

/-- A tree whose names are among some others cannot tell points apart that agree in those. -/
theorem alike_evalWithin (depth : Nat) (e : Expr) (h : e.variableNames ⊆ names) (p q : Point)
    (hpq : Agree names p q) :
    Alike names (Among names) (e.evalWithin depth p) (e.evalWithin depth q) := by
  induction depth generalizing e p q with
  | zero =>
    rw [evalWithin, evalWithin]
    exact .error .tooDeep
  | succ depth ih =>
    cases e with
    | num value =>
      rw [evalWithin, evalWithin]
      exact .ok (.value value) hpq
    | var name =>
      rw [variableNames] at h
      rw [evalWithin, evalWithin]
      exact .ok (.name (h (List.mem_singleton_self name))) hpq
    | foreign text =>
      rw [evalWithin, evalWithin]
      exact .error _
    | unary op operand =>
      rw [variableNames] at h
      rw [evalWithin, evalWithin]
      refine (ih operand h p q hpq).bind fun a p q ha hpq => ?_
      obtain ⟨heq, hamong⟩ := among_negateIf op ha hpq
      dsimp only
      rw [← heq]
      exact .ok hamong hpq
    | binary op left right =>
      rw [variableNames] at h
      rw [evalWithin, evalWithin]
      obtain ⟨hl, hr⟩ := joinNames_subset.1 h
      refine (ih left hl p q hpq).bind fun a p q ha hpq => ?_
      refine (ih right hr p q hpq).bind fun b p q hb hpq => ?_
      dsimp only
      split
      · rw [ha.read_eq hpq, hb.read_eq hpq]
        exact .ok (.value _) hpq
      · exact .error _
    | call name args =>
      rw [variableNames] at h
      rw [evalWithin, evalWithin]
      refine (alike_evalAllWithin ih h hpq).bind fun as p q has hpq => ?_
      dsimp only
      split
      · exact alike_applyFunction _ has hpq
      · exact .error _

/-- The result of a tree, be it a number or a failure, is the same at two points that agree on `x` if a
variable of this name occurs in it, and on `y` if one of any other name does. So a coordinate that no variable
of the tree stands for has no influence on it. -/
theorem eval_eq_of_agree (e : Expr) :
    (∀ p q : Point, ("x" ∈ e.variableNames → p.x = q.x) →
      (∀ name ∈ e.variableNames, name ≠ "x" → p.y = q.y) → e.eval p = e.eval q) ∧
    (∀ (p : Point) (v : Float), "x" ∉ e.variableNames → e.eval { p with x := v } = e.eval p) ∧
    ∀ (p : Point) (v : Float), (∀ name ∈ e.variableNames, name = "x") →
      e.eval { p with y := v } = e.eval p := by
  have h : ∀ p q : Point, ("x" ∈ e.variableNames → p.x = q.x) →
      (∀ name ∈ e.variableNames, name ≠ "x" → p.y = q.y) → e.eval p = e.eval q := by
    intro p q hx hy
    have hrun := alike_evalWithin maxDepth e (List.Subset.refl _) p q (agree_of_coordinates hx hy)
    rw [eval, eval]
    generalize e.evalWithin maxDepth p = r at hrun
    generalize e.evalWithin maxDepth q = r' at hrun
    cases hrun with
    | error fault => rfl
    | ok ha hpq => exact congrArg Except.ok (ha.read_eq hpq)
  refine ⟨h, fun p v hx => ?_, fun p v hy => ?_⟩
  · exact h _ p (fun hmem => absurd hmem hx) fun _ _ _ => rfl
  · exact h _ p (fun _ => rfl) fun name hname hne => absurd (hy name hname) hne

/-- A function whose result is stored in `x` before that is read, where `y` is irrelevant. -/
theorem eval_eq_of_agree_stored :
    let e := binary "+" (call "abs" [num (-2), var "x"]) (var "x")
    e.variableNames = ["x"] ∧ e.eval ⟨1, 5⟩ = .ok 4 ∧ e.eval ⟨1, 0 / 0⟩ = .ok 4 ∧
      e.eval ⟨1, 5⟩ = e.eval ⟨1, 7⟩ := by
  intro e
  have hnames : e.variableNames = ["x"] := rfl
  have hfour : e.eval ⟨1, 5⟩ = .ok 4 := by
    simp only [e, eval, maxDepth, evalWithin, evalAllWithin]
    rfl
  have hy : ∀ name ∈ e.variableNames, name = "x" := by simp [hnames]
  obtain ⟨hagree, -, hother⟩ := eval_eq_of_agree e
  refine ⟨hnames, hfour, (hother ⟨1, 5⟩ (0 / 0) hy).trans hfour, ?_⟩
  exact hagree _ _ (fun _ => rfl) fun name hname hne => absurd (hy name hname) hne

end Relief.Expr
