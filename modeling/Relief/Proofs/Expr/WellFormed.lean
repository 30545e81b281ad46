import Relief.Token

/-!
Well-formed trees: known operators, known functions with as many arguments as they take, and no
variables but the two coordinates.
-/
namespace Relief.Expr

/-- Trees whose names and argument counts are right, with a condition on their numbers. -/
inductive WellFormed (number : Float → Prop) : Expr → Prop where
  | num {value : Float} : number value → WellFormed number (.num value)
  | var {name : String} : name ∈ Token.variableNames → WellFormed number (.var name)
  | unary {op : String} {operand : Expr} : op ∈ ["+", "-"] → WellFormed number operand →
    WellFormed number (.unary op operand)
  | binary {op : String} {left right : Expr} : op ∈ operators.map (·.1) →
    WellFormed number left → WellFormed number right → WellFormed number (.binary op left right)
  | call {f : Function} {args : List Expr} : f ∈ functions → f.accepts args.length = true →
    (∀ arg ∈ args, WellFormed number arg) → WellFormed number (.call f.name args)

section Numbers

variable {number number' : Float → Prop} {e : Expr} {args : List Expr} {name : String}

theorem WellFormed.mono (hn : ∀ v, number v → number' v) (h : WellFormed number e) :
    WellFormed number' e := by
  induction h with
  | num h => exact .num (hn _ h)
  | var h => exact .var h
  | unary ho _ ih => exact .unary ho ih
  | binary ho _ _ ihl ihr => exact .binary ho ihl ihr
  | call hf ha _ ih => exact .call hf ha ih

theorem WellFormed.arguments (h : WellFormed number (.call name args)) :
    ∀ arg ∈ args, WellFormed number arg := by
  cases h with
  | call _ _ h => exact h

theorem WellFormed.and (h : WellFormed number e) (h' : WellFormed number' e) :
    WellFormed (fun v => number v ∧ number' v) e := by
  induction h with
  | num h =>
    cases h' with
    | num h' => exact .num ⟨h, h'⟩
  | var h => exact .var h
  | unary ho _ ih =>
    cases h' with
    | unary _ h' => exact .unary ho (ih h')
  | binary ho _ _ ihl ihr =>
    cases h' with
    | binary _ hl hr => exact .binary ho (ihl hl) (ihr hr)
  | call hf ha _ ih => exact .call hf ha fun arg harg => ih arg harg (h'.arguments arg harg)

end Numbers

/-- Every function is found by its name. -/
theorem function?_name {f : Function} (h : f ∈ functions) : function? f.name = some f := by
  simp only [functions, List.mem_cons, List.not_mem_nil, or_false] at h
  rcases h with rfl | rfl | rfl | rfl | rfl | rfl | rfl | rfl | rfl | rfl | rfl | rfl | rfl | rfl |
    rfl | rfl | rfl | rfl
  all_goals rfl

/-- A function that takes some number of arguments takes at least one. -/
theorem Function.ne_nil_of_accepts {f : Function} {args : List Expr}
    (h : f.accepts args.length = true) : args ≠ [] := by
  rintro rfl
  cases h

/-! ### Names of variables -/

section Names

variable {number : Float → Prop} {e : Expr} {args : List Expr} {names as bs : List String}

theorem joinNames_subset : joinNames as bs ⊆ names ↔ as ⊆ names ∧ bs ⊆ names := by
  constructor
  · intro h
    have has : as ⊆ names := fun a ha => h (List.mem_append_left _ ha)
    refine ⟨has, fun b hb => ?_⟩
    by_cases hmem : b ∈ as
    · exact has hmem
    · exact h (List.mem_append_right _ (List.mem_filter.2 ⟨hb, by simpa using hmem⟩))
  · rintro ⟨ha, hb⟩
    exact List.append_subset.2 ⟨ha, List.Subset.trans List.filter_sublist.subset hb⟩

theorem variableNamesOfAll_subset (h : ∀ arg ∈ args, arg.variableNames ⊆ names) :
    variableNamesOfAll args ⊆ names := by
  induction args with
  | nil => exact List.nil_subset _
  | cons arg args ih =>
    obtain ⟨harg, hargs⟩ := List.forall_mem_cons.1 h
    rw [variableNamesOfAll]
    exact joinNames_subset.2 ⟨harg, ih hargs⟩

theorem variableNames_subset (h : WellFormed number e) : e.variableNames ⊆ Token.variableNames := by
  induction h with
  | num =>
    rw [variableNames]
    exact List.nil_subset _
  | var hv =>
    rw [variableNames]
    exact List.cons_subset.2 ⟨hv, List.nil_subset _⟩
  | unary _ _ ih => rwa [variableNames]
  | binary _ _ _ ihl ihr =>
    rw [variableNames]
    exact joinNames_subset.2 ⟨ihl, ihr⟩
  | call _ _ _ ih =>
    rw [variableNames]
    exact variableNamesOfAll_subset ih

end Names

/-! ### Numbers and depths -/

mutual

/-- The tree with other numbers. -/
def mapNumbers (g : Float → Float) : Expr → Expr
  | num value => num (g value)
  | var name => var name
  | unary op operand => unary op (operand.mapNumbers g)
  | binary op left right => binary op (left.mapNumbers g) (right.mapNumbers g)
  | call function args => call function (mapNumbersOfAll g args)
  | foreign text => foreign text

def mapNumbersOfAll (g : Float → Float) : List Expr → List Expr
  | [] => []
  | arg :: args => arg.mapNumbers g :: mapNumbersOfAll g args

/-- How deep a tree is, where a call counts twice. -/
def depth : Expr → Nat
  | num _ | var _ | foreign _ => 1
  | unary _ operand => operand.depth + 1
  | binary _ left right => max left.depth right.depth + 1
  | call _ args => depthOfAll args + 2

def depthOfAll : List Expr → Nat
  | [] => 0
  | arg :: args => max arg.depth (depthOfAll args)

end

theorem depth_le_depthOfAll {arg : Expr} {args : List Expr} (h : arg ∈ args) :
    arg.depth ≤ depthOfAll args := by
  induction args with
  | nil => cases h
  | cons a args ih =>
    rw [depthOfAll]
    obtain rfl | h := List.mem_cons.1 h
    · exact Nat.le_max_left _ _
    · exact Nat.le_trans (ih h) (Nat.le_max_right _ _)

/-! ### Trees with other numbers -/

section MapNumbers

variable {number number' : Float → Prop} {e : Expr}

theorem mapNumbersOfAll_eq (g : Float → Float) (args : List Expr) :
    mapNumbersOfAll g args = args.map (mapNumbers g) := by
  induction args with
  | nil => rw [mapNumbersOfAll, List.map_nil]
  | cons arg args ih => rw [mapNumbersOfAll, ih, List.map_cons]

theorem wellFormed_mapNumbers {g : Float → Float} (hg : ∀ v, number v → number' (g v))
    (h : WellFormed number e) : WellFormed number' (e.mapNumbers g) := by
  induction h with
  | num h =>
    rw [mapNumbers]
    exact .num (hg _ h)
  | var h =>
    rw [mapNumbers]
    exact .var h
  | unary ho _ ih =>
    rw [mapNumbers]
    exact .unary ho ih
  | binary ho _ _ ihl ihr =>
    rw [mapNumbers]
    exact .binary ho ihl ihr
  | call hf ha _ ih =>
    rw [mapNumbers, mapNumbersOfAll_eq]
    refine .call hf (by rwa [List.length_map]) fun arg harg => ?_
    obtain ⟨a, ha, rfl⟩ := List.mem_map.1 harg
    exact ih a ha

theorem depthOfAll_congr {args : List Expr} {f : Expr → Expr}
    (h : ∀ arg ∈ args, (f arg).depth = arg.depth) : depthOfAll (args.map f) = depthOfAll args := by
  induction args with
  | nil => rfl
  | cons arg args ih =>
    rw [List.map_cons, depthOfAll, depthOfAll, h arg List.mem_cons_self,
      ih fun a ha => h a (List.mem_cons_of_mem _ ha)]

theorem depth_mapNumbers (g : Float → Float) (h : WellFormed number e) :
    (e.mapNumbers g).depth = e.depth := by
  induction h with
  | num | var => simp only [mapNumbers, depth]
  | unary _ _ ih => rw [mapNumbers, depth, depth, ih]
  | binary _ _ _ ihl ihr => rw [mapNumbers, depth, depth, ihl, ihr]
  | call _ _ _ ih => rw [mapNumbers, depth, depth, mapNumbersOfAll_eq, depthOfAll_congr ih]

end MapNumbers

end Relief.Expr
