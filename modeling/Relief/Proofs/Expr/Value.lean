import Mathlib
import Relief.Expr.Eval
import Relief.Proofs.Expr.WellFormed
import Relief.Proofs.Outcome

/-!
The value of a well-formed tree, apart from how it is walked. The walk ends with this value if the tree
is no higher than the walk may be deep, and is too deep otherwise. Nothing else happens.
-/
namespace Relief.Expr

mutual

/-- How many nodes stand above one another. -/
def height : Expr → Nat
  | num _ | var _ | foreign _ => 1
  | unary _ operand => operand.height + 1
  | binary _ left right => max left.height right.height + 1
  | call _ args => heightOfAll args + 1

def heightOfAll : List Expr → Nat
  | [] => 0
  | arg :: args => max arg.height (heightOfAll args)

end

/-- What a function makes of its arguments, of which it takes as many as it accepts. -/
def Function.apply (f : Function) (args : List Float) : Float :=
  match f.rule, args with
  | .elementwise g, v :: _ | .strict g, v :: _ => g v
  | .fold g, v :: vs => vs.foldl g v
  | _, [] => 0.0 / 0.0

mutual

/-- The value of a tree at a point, NaN where a name is unknown. -/
def valueAt (p : Point) : Expr → Float
  | num value => value
  | var name => (Operand.ofName name).read p
  | unary op operand => if op == "-" then -operand.valueAt p else operand.valueAt p
  | binary op left right =>
    match operator? op with
    | some o => o.apply (left.valueAt p) (right.valueAt p)
    | none => 0.0 / 0.0
  | call name args =>
    match function? name with
    | some f => f.apply (valuesAt p args)
    | none => 0.0 / 0.0
  | foreign _ => 0.0 / 0.0

def valuesAt (p : Point) : List Expr → List Float
  | [] => []
  | arg :: args => arg.valueAt p :: valuesAt p args

end

section Value

variable {number : Float → Prop} {e : Expr} {args : List Expr} {op : String} {p : Point}

theorem one_le_height (e : Expr) : 1 ≤ e.height := by
  cases e <;> simp only [height, Nat.le_refl, Nat.le_add_left]

theorem height_le_heightOfAll {arg : Expr} (h : arg ∈ args) : arg.height ≤ heightOfAll args := by
  induction args with
  | nil => cases h
  | cons a args ih =>
    rw [heightOfAll]
    obtain rfl | h := List.mem_cons.1 h
    · exact Nat.le_max_left _ _
    · exact Nat.le_trans (ih h) (Nat.le_max_right _ _)

theorem operator?_of_mem (h : op ∈ operators.map (·.1)) : ∃ o, operator? op = some o := by
  simp only [operators, List.map_cons, List.map_nil, List.mem_cons, List.not_mem_nil, or_false] at h
  rcases h with rfl | rfl | rfl | rfl | rfl <;> exact ⟨_, rfl⟩

theorem valuesAt_eq (p : Point) (args : List Expr) : valuesAt p args = args.map (valueAt p) := by
  induction args with
  | nil => rfl
  | cons arg args ih => rw [valuesAt, ih, List.map_cons]

/-- A function that is no fold takes exactly one argument. -/
theorem Function.accepts_cases {f : Function} {α : Type} {as : List α}
    (h : f.accepts as.length = true) :
    ((∃ g, f.rule = .elementwise g ∨ f.rule = .strict g) ∧ ∃ a, as = [a]) ∨
      ((∃ g, f.rule = .fold g) ∧ ∃ a rest, as = a :: rest) := by
  obtain ⟨name, rule⟩ := f
  match as, rule with
  | [], _ => cases h
  | [a], .elementwise g => exact .inl ⟨⟨g, .inl rfl⟩, a, rfl⟩
  | [a], .strict g => exact .inl ⟨⟨g, .inr rfl⟩, a, rfl⟩
  | _ :: _ :: _, .elementwise _ | _ :: _ :: _, .strict _ =>
    simp only [accepts, maxArgs, List.length_cons, Option.all_some, Bool.and_eq_true,
      decide_eq_true_eq] at h
    omega
  | a :: rest, .fold g => exact .inr ⟨⟨g, rfl⟩, a, rest, rfl⟩

theorem read_negateIf (op : String) (p : Point) (a : Operand) :
    (negateIf op p a).read p = if op == "-" then -a.read p else a.read p := by
  unfold negateIf
  split <;> rfl

/-- Accepted arguments always have a result, and no coordinate is stored. -/
theorem applyFunction_of_accepts {f : Function} {as : List Operand}
    (h : f.accepts as.length = true) :
    ∃ a, applyFunction f as p = .ok (a, p) ∧ a.read p = f.apply (as.map (·.read p)) := by
  obtain ⟨⟨g, hg⟩, a, rfl⟩ | ⟨⟨g, hg⟩, a, rest, rfl⟩ := Function.accepts_cases h
  · refine ⟨.value (g (a.read p)), ?_, ?_⟩
    · rcases hg with hg | hg <;> simp only [applyFunction, hg]
    · rcases hg with hg | hg <;> simp only [Function.apply, hg, Operand.read, List.map_cons]
  · cases rest with
    | nil => exact ⟨a, by simp only [applyFunction, hg], by simp only [Function.apply, hg]; rfl⟩
    | cons b rest =>
      refine ⟨_, by simp only [applyFunction, hg]; rfl, ?_⟩
      simp only [Function.apply, hg, Operand.read, List.map_cons, ← List.foldl_map, List.foldl_cons]

/-- How a walk of limited depth ends. -/
structure Evaluates (e : Expr) (p : Point) (depth : Nat) : Prop where
  within : e.height ≤ depth → ∃ a, e.evalWithin depth p = .ok (a, p) ∧ a.read p = e.valueAt p
  beyond : depth < e.height → e.evalWithin depth p = .error .tooDeep

theorem evaluates_zero (e : Expr) (p : Point) : Evaluates e p 0 where
  within h := absurd h (Nat.not_le_of_lt (one_le_height e))
  beyond _ := by rw [evalWithin]

theorem evaluates_leaf {depth : Nat} (he : e.height = 1)
    (h : ∀ n, ∃ a, e.evalWithin (n + 1) p = .ok (a, p) ∧ a.read p = e.valueAt p) :
    Evaluates e p depth := by
  cases depth with
  | zero => exact evaluates_zero e p
  | succ n => exact ⟨fun _ => h n, fun h => absurd h (by omega)⟩

theorem evalAllWithin_eq {depth : Nat} (h : ∀ arg ∈ args, Evaluates arg p depth) :
    (heightOfAll args ≤ depth → ∃ as, evalAllWithin depth args p = .ok (as, p) ∧
      as.map (·.read p) = args.map (valueAt p)) ∧
    (depth < heightOfAll args → evalAllWithin depth args p = .error .tooDeep) := by
  induction args with
  | nil => exact ⟨fun _ => ⟨[], by rw [evalAllWithin], rfl⟩, fun h => absurd h (Nat.not_lt_zero _)⟩
  | cons arg args ih =>
    obtain ⟨harg, hargs⟩ := List.forall_mem_cons.1 h
    obtain ⟨ih, ih'⟩ := ih hargs
    rw [heightOfAll, evalAllWithin]
    refine ⟨fun hd => ?_, fun hd => ?_⟩
    · obtain ⟨a, ha, hv⟩ := harg.within (Nat.le_trans (Nat.le_max_left _ _) hd)
      obtain ⟨as, has, hvs⟩ := ih (Nat.le_trans (Nat.le_max_right _ _) hd)
      exact ⟨a :: as, by rw [ha]; simp only [bind, Except.bind, has]; rfl,
        by rw [List.map_cons, List.map_cons, hv, hvs]⟩
    · by_cases hl : depth < arg.height
      · rw [harg.beyond hl]
        rfl
      · obtain ⟨a, ha, -⟩ := harg.within (Nat.le_of_not_lt hl)
        rw [ha]
        simp only [bind, Except.bind, ih' (by omega)]

/-- A well-formed tree has its value, or is too deep, and nothing else can happen. -/
theorem evaluates_of_wellFormed (h : WellFormed number e) (p : Point) (depth : Nat) :
    Evaluates e p depth := by
  induction h generalizing depth with
  | num => exact evaluates_leaf (by rw [height]) fun n => ⟨_, by rw [evalWithin], by rw [valueAt]; rfl⟩
  | var => exact evaluates_leaf (by rw [height]) fun n => ⟨_, by rw [evalWithin], by rw [valueAt]⟩
  | @unary op operand _ _ ih =>
    cases depth with
    | zero => exact evaluates_zero _ p
    | succ depth =>
      refine ⟨fun hd => ?_, fun hd => ?_⟩ <;> rw [height] at hd <;> rw [evalWithin]
      · obtain ⟨a, ha, hv⟩ := (ih depth).within (by omega)
        refine ⟨_, by rw [ha]; rfl, ?_⟩
        rw [read_negateIf, hv, valueAt]
      · rw [(ih depth).beyond (by omega)]
        rfl
  | @binary op left right ho _ _ ihl ihr =>
    cases depth with
    | zero => exact evaluates_zero _ p
    | succ depth =>
      refine ⟨fun hd => ?_, fun hd => ?_⟩ <;> rw [height] at hd <;> rw [evalWithin]
      · obtain ⟨o, ho⟩ := operator?_of_mem ho
        obtain ⟨a, ha, hva⟩ := (ihl depth).within (by omega)
        obtain ⟨b, hb, hvb⟩ := (ihr depth).within (by omega)
        refine ⟨_, by rw [ha]; simp only [bind, Except.bind, hb, ho]; rfl, ?_⟩
        rw [valueAt, ho, ← hva, ← hvb]
        rfl
      · by_cases hl : depth < left.height
        · rw [(ihl depth).beyond hl]
          rfl
        · obtain ⟨a, ha, -⟩ := (ihl depth).within (Nat.le_of_not_lt hl)
          rw [ha]
          simp only [bind, Except.bind, (ihr depth).beyond (by omega)]
  | @call f args hf hacc _ ih =>
    cases depth with
    | zero => exact evaluates_zero _ p
    | succ depth =>
      have hargs : ∀ arg ∈ args, Evaluates arg p depth := fun arg harg => ih arg harg depth
      obtain ⟨hall, hall'⟩ := evalAllWithin_eq hargs
      refine ⟨fun hd => ?_, fun hd => ?_⟩ <;> rw [height] at hd <;> rw [evalWithin]
      · obtain ⟨as, has, hvs⟩ := hall (by omega)
        have hlen : as.length = args.length := by simpa using congrArg List.length hvs
        obtain ⟨a, ha, hv⟩ := applyFunction_of_accepts (p := p) (hlen ▸ hacc)
        refine ⟨a, by rw [has]; simp only [bind, Except.bind, function?_name hf, ha], ?_⟩
        simp only [valueAt, function?_name hf, valuesAt_eq, hv, hvs]
      · rw [hall' (by omega)]
        rfl

theorem eval_eq_ok (h : WellFormed number e) (p : Point) (hd : e.height ≤ maxDepth) :
    e.eval p = .ok (e.valueAt p) := by
  obtain ⟨a, ha, hv⟩ := (evaluates_of_wellFormed h p maxDepth).within hd
  rw [eval, ha, ← hv]
  rfl

theorem eval_eq_tooDeep (h : WellFormed number e) (p : Point) (hd : maxDepth < e.height) :
    e.eval p = .error .tooDeep := by
  rw [eval, (evaluates_of_wellFormed h p maxDepth).beyond hd]
  rfl

end Value

end Relief.Expr
