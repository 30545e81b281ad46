import Mathlib
import Relief.Expr.Grid
import Relief.Proofs.Expr.Value
import Relief.Proofs.Field.Broadcast

/-!
The values of a well-formed tree at many points at once. They are the values at every single point if
the coordinates fit together, and there are none if not.
-/
namespace Relief.Expr

open Relief.Field (joinSizes count)

/-- The point that two arrays of coordinates have at a place. -/
def gridPoint (xs ys : Field) (whole : List Nat) (k : Nat) : Point :=
  ⟨xs.read whole k, ys.read whole k⟩

section Grid

variable {number : Float → Prop} {e : Expr} {args : List Expr} {xs ys : Field} {whole : List Nat}
  {depth : Nat}

theorem zipFields_shows {f g : Field} {u v : Nat → Float} (op : Float → Float → Float)
    (hf : f.Shows whole u) (hg : g.Shows whole v) :
    ∃ h, zipFields op f g = .ok h ∧ h.Shows whole fun k => op (u k) (v k) := by
  obtain ⟨h, hh, hs⟩ := hf.zipWith op hg
  exact ⟨h, by rw [zipFields, hh], hs⟩

theorem foldlM_zipFields_shows {v : Nat → Float} {fs : List Field} {vs : List (Nat → Float)}
    (op : Float → Float → Float) (h : List.Forall₂ (fun f v => f.Shows whole v) fs vs) {f : Field}
    (hf : f.Shows whole v) :
    ∃ g, fs.foldlM (zipFields op) f = .ok g ∧
      g.Shows whole fun k => (vs.map (· k)).foldl op (v k) := by
  induction h generalizing f v with
  | nil => exact ⟨f, rfl, hf⟩
  | cons hg _ ih =>
    obtain ⟨h, hh, hs⟩ := zipFields_shows op hf hg
    obtain ⟨g, hfold, hg⟩ := ih hs
    exact ⟨g, by rw [List.foldlM_cons, hh]; exact hfold, hg⟩

theorem applyToFields_shows {f : Function} {fs : List Field} {vs : List (Nat → Float)}
    (h : f.accepts fs.length = true) (hv : List.Forall₂ (fun f v => f.Shows whole v) fs vs) :
    ∃ g, applyToFields f fs = .ok g ∧ g.Shows whole fun k => f.apply (vs.map (· k)) := by
  obtain ⟨⟨g, hg⟩, a, rfl⟩ | ⟨⟨g, hg⟩, a, rest, rfl⟩ := Function.accepts_cases h
  · obtain ⟨v, vs, ha, hnil, rfl⟩ := List.forall₂_cons_left_iff.1 hv
    cases hnil
    refine ⟨a.map g, ?_, (ha.map g).congr fun k _ => ?_⟩
    · rcases hg with hg | hg <;> simp only [applyToFields, hg]
    · rcases hg with hg | hg <;> simp only [Function.apply, hg, List.map_cons]
  · obtain ⟨v, vs, ha, hrest, rfl⟩ := List.forall₂_cons_left_iff.1 hv
    obtain ⟨b, hb, hs⟩ := foldlM_zipFields_shows g hrest ha
    refine ⟨b, by simp only [applyToFields, hg, hb], hs.congr fun k _ => ?_⟩
    simp only [Function.apply, hg, List.map_cons]

/-! ### Coordinates that fit together -/

/-- How a walk of limited depth ends over coordinates that fit. -/
structure EvaluatesGrid (e : Expr) (xs ys : Field) (whole : List Nat) (depth : Nat) : Prop where
  within : e.height ≤ depth → ∃ f, e.evalGridWithin depth xs ys = .ok f ∧
    f.Shows whole fun k => e.valueAt (gridPoint xs ys whole k)
  beyond : depth < e.height → e.evalGridWithin depth xs ys = .error (.fault .tooDeep)

theorem evaluatesGrid_zero (e : Expr) (xs ys : Field) (whole : List Nat) :
    EvaluatesGrid e xs ys whole 0 where
  within h := absurd h (Nat.not_le_of_lt (one_le_height e))
  beyond _ := by rw [evalGridWithin]

theorem evaluatesGrid_leaf (he : e.height = 1)
    (h : ∀ n, ∃ f, e.evalGridWithin (n + 1) xs ys = .ok f ∧
      f.Shows whole fun k => e.valueAt (gridPoint xs ys whole k)) :
    EvaluatesGrid e xs ys whole depth := by
  cases depth with
  | zero => exact evaluatesGrid_zero e xs ys whole
  | succ n => exact ⟨fun _ => h n, fun h => absurd h (by omega)⟩

theorem evalAllGridWithin_eq (h : ∀ arg ∈ args, EvaluatesGrid arg xs ys whole depth) :
    (heightOfAll args ≤ depth → ∃ fs, evalAllGridWithin depth args xs ys = .ok fs ∧
      List.Forall₂ (fun f v => f.Shows whole v) fs
        (args.map fun arg k => arg.valueAt (gridPoint xs ys whole k))) ∧
    (depth < heightOfAll args →
      evalAllGridWithin depth args xs ys = .error (.fault .tooDeep)) := by
  induction args with
  | nil =>
    exact ⟨fun _ => ⟨[], by rw [evalAllGridWithin], .nil⟩, fun h => absurd h (Nat.not_lt_zero _)⟩
  | cons arg args ih =>
    obtain ⟨harg, hargs⟩ := List.forall_mem_cons.1 h
    obtain ⟨ih, ih'⟩ := ih hargs
    rw [heightOfAll, evalAllGridWithin]
    refine ⟨fun hd => ?_, fun hd => ?_⟩
    · obtain ⟨f, hf, hs⟩ := harg.within (Nat.le_trans (Nat.le_max_left _ _) hd)
      obtain ⟨fs, hfs, hss⟩ := ih (Nat.le_trans (Nat.le_max_right _ _) hd)
      exact ⟨f :: fs, by rw [hf]; simp only [bind, Except.bind, hfs]; rfl, .cons hs hss⟩
    · by_cases hl : depth < arg.height
      · rw [harg.beyond hl]
        rfl
      · obtain ⟨f, hf, -⟩ := harg.within (Nat.le_of_not_lt hl)
        rw [hf]
        simp only [bind, Except.bind, ih' (by omega)]

/-- Over coordinates that fit, a well-formed tree has at every place its value there, or is too deep. -/
theorem evaluatesGrid_of_wellFormed (h : WellFormed number e)
    (hx : xs.Shows whole (xs.read whole)) (hy : ys.Shows whole (ys.read whole)) (depth : Nat) :
    EvaluatesGrid e xs ys whole depth := by
  induction h generalizing depth with
  | @num value =>
    refine evaluatesGrid_leaf (by rw [height]) fun n => ⟨_, by rw [evalGridWithin], ?_⟩
    simp only [valueAt]
    exact Field.shows_scalar whole value
  | @var name =>
    refine evaluatesGrid_leaf (by rw [height]) fun n => ⟨_, by rw [evalGridWithin], ?_⟩
    simp only [valueAt, Operand.ofName]
    split
    · exact hx
    · exact hy
  | @unary op operand _ _ ih =>
    cases depth with
    | zero => exact evaluatesGrid_zero _ xs ys whole
    | succ depth =>
      refine ⟨fun hd => ?_, fun hd => ?_⟩ <;> rw [height] at hd <;> rw [evalGridWithin]
      · obtain ⟨f, hf, hs⟩ := (ih depth).within (by omega)
        refine ⟨_, by rw [hf]; rfl, ?_⟩
        simp only [valueAt]
        split
        · exact hs.map _
        · exact hs
      · rw [(ih depth).beyond (by omega)]
        rfl
  | @binary op left right ho _ _ ihl ihr =>
    cases depth with
    | zero => exact evaluatesGrid_zero _ xs ys whole
    | succ depth =>
      refine ⟨fun hd => ?_, fun hd => ?_⟩ <;> rw [height] at hd <;> rw [evalGridWithin]
      · obtain ⟨o, ho⟩ := operator?_of_mem ho
        obtain ⟨f, hf, hsf⟩ := (ihl depth).within (by omega)
        obtain ⟨g, hg, hsg⟩ := (ihr depth).within (by omega)
        obtain ⟨z, hz, hs⟩ := zipFields_shows o.apply hsf hsg
        refine ⟨z, by rw [hf]; simp only [bind, Except.bind, hg, ho, hz], ?_⟩
        simpa only [valueAt, ho] using hs
      · by_cases hl : depth < left.height
        · rw [(ihl depth).beyond hl]
          rfl
        · obtain ⟨f, hf, -⟩ := (ihl depth).within (Nat.le_of_not_lt hl)
          rw [hf]
          simp only [bind, Except.bind, (ihr depth).beyond (by omega)]
  | @call f args hf hacc _ ih =>
    cases depth with
    | zero => exact evaluatesGrid_zero _ xs ys whole
    | succ depth =>
      have hargs : ∀ arg ∈ args, EvaluatesGrid arg xs ys whole depth :=
        fun arg harg => ih arg harg depth
      obtain ⟨hall, hall'⟩ := evalAllGridWithin_eq hargs
      refine ⟨fun hd => ?_, fun hd => ?_⟩ <;> rw [height] at hd <;> rw [evalGridWithin]
      · obtain ⟨fs, hfs, hvs⟩ := hall (by omega)
        have hlen : fs.length = args.length := by rw [hvs.length_eq, List.length_map]
        obtain ⟨g, hg, hs⟩ := applyToFields_shows (hlen ▸ hacc) hvs
        refine ⟨g, by rw [hfs]; simp only [bind, Except.bind, function?_name hf, hg], ?_⟩
        simpa only [valueAt, function?_name hf, valuesAt_eq, List.map_map,
          Function.comp_def] using hs
      · rw [hall' (by omega)]
        rfl

/-! ### Coordinates that do not fit together -/

theorem foldlM_zipFields_ne_fault {op : Float → Float → Float} {fault : Fault} (fs : List Field)
    (f : Field) : fs.foldlM (zipFields op) f ≠ .error (.fault fault) := by
  induction fs generalizing f with
  | nil => exact ok_ne_error
  | cons g fs ih =>
    rw [List.foldlM_cons, zipFields]
    split
    · exact ih _
    · intro h
      cases h

theorem applyToFields_ne_fault {f : Function} {fs : List Field} {fault : Fault}
    (h : f.accepts fs.length = true) : applyToFields f fs ≠ .error (.fault fault) := by
  obtain ⟨⟨g, hg⟩, a, rfl⟩ | ⟨⟨g, hg⟩, a, rest, rfl⟩ := Function.accepts_cases h
  · rcases hg with hg | hg <;> simp only [applyToFields, hg] <;> exact ok_ne_error
  · simp only [applyToFields, hg]
    exact foldlM_zipFields_ne_fault rest a

theorem length_of_evalAllGridWithin {fs : List Field}
    (h : evalAllGridWithin depth args xs ys = .ok fs) : fs.length = args.length := by
  induction args generalizing fs with
  | nil =>
    rw [evalAllGridWithin] at h
    cases h
    rfl
  | cons arg args ih =>
    rw [evalAllGridWithin] at h
    obtain ⟨f, -, h⟩ := bind_eq_ok_iff.1 h
    obtain ⟨fs, hfs, h⟩ := bind_eq_ok_iff.1 h
    cases h
    rw [List.length_cons, List.length_cons, ih hfs]

theorem evalAllGridWithin_ne_fault {fault : Fault}
    (h : ∀ arg ∈ args, arg.evalGridWithin depth xs ys ≠ .error (.fault fault)) :
    evalAllGridWithin depth args xs ys ≠ .error (.fault fault) := by
  induction args with
  | nil =>
    rw [evalAllGridWithin]
    exact ok_ne_error
  | cons arg args ih =>
    obtain ⟨harg, hargs⟩ := List.forall_mem_cons.1 h
    rw [evalAllGridWithin]
    exact bind_ne_error harg fun f _ => bind_ne_error (ih hargs) fun fs _ => ok_ne_error

/-- Whatever the coordinates are, only their shapes can go wrong with a tree that is not too deep. -/
theorem evalGridWithin_ne_fault (h : WellFormed number e) (hd : e.height ≤ depth) (fault : Fault) :
    e.evalGridWithin depth xs ys ≠ .error (.fault fault) := by
  induction h generalizing depth with
  | num | var =>
    obtain ⟨n, rfl⟩ := Nat.exists_eq_add_of_le' (Nat.le_trans (one_le_height _) hd)
    rw [evalGridWithin]
    exact ok_ne_error
  | unary _ _ ih =>
    obtain ⟨n, rfl⟩ := Nat.exists_eq_add_of_le' (Nat.le_trans (one_le_height _) hd)
    rw [height] at hd
    rw [evalGridWithin]
    exact bind_ne_error (ih (by omega)) fun f _ => ok_ne_error
  | binary ho _ _ ihl ihr =>
    obtain ⟨n, rfl⟩ := Nat.exists_eq_add_of_le' (Nat.le_trans (one_le_height _) hd)
    rw [height] at hd
    obtain ⟨o, ho⟩ := operator?_of_mem ho
    rw [evalGridWithin]
    refine bind_ne_error (ihl (by omega)) fun f _ => bind_ne_error (ihr (by omega)) fun g _ => ?_
    simp only [ho, zipFields]
    split
    · exact ok_ne_error
    · intro h
      cases h
  | @call f args hf hacc _ ih =>
    obtain ⟨n, rfl⟩ := Nat.exists_eq_add_of_le' (Nat.le_trans (one_le_height _) hd)
    rw [height] at hd
    rw [evalGridWithin]
    refine bind_ne_error (evalAllGridWithin_ne_fault fun arg harg => ?_) fun fs hfs => ?_
    · have := height_le_heightOfAll harg
      exact ih arg harg (by omega)
    · simp only [function?_name hf]
      exact applyToFields_ne_fault (length_of_evalAllGridWithin hfs ▸ hacc)

/-! ### Whole trees -/

theorem evalGrid_eq_ok (h : WellFormed number e) (hd : e.height ≤ maxDepth) (hx : xs.Full)
    (hy : ys.Full) (hj : joinSizes xs.sizes ys.sizes = some whole) :
    e.evalGrid xs ys =
      .ok ⟨whole, Array.ofFn fun k : Fin (count whole) => e.valueAt (gridPoint xs ys whole k)⟩ := by
  obtain ⟨hfx, hfy⟩ := Field.fits_of_joinSizes hj
  obtain ⟨f, hf, hs⟩ :=
    (evaluatesGrid_of_wellFormed h (hx.shows hfx) (hy.shows hfy) maxDepth).within hd
  rw [evalGrid, hf, ← hs.values_spread]
  simp only [bind, Except.bind, hj]
  rfl

theorem evalGrid_eq_tooDeep (h : WellFormed number e) (hd : maxDepth < e.height) (hx : xs.Full)
    (hy : ys.Full) (hj : joinSizes xs.sizes ys.sizes = some whole) :
    e.evalGrid xs ys = .error (.fault .tooDeep) := by
  obtain ⟨hfx, hfy⟩ := Field.fits_of_joinSizes hj
  rw [evalGrid, (evaluatesGrid_of_wellFormed h (hx.shows hfx) (hy.shows hfy) maxDepth).beyond hd]
  rfl

theorem evalGrid_eq_shapes (h : WellFormed number e) (hd : e.height ≤ maxDepth)
    (hj : joinSizes xs.sizes ys.sizes = none) : e.evalGrid xs ys = .error .shapes := by
  have hne : ∀ fault, e.evalGridWithin maxDepth xs ys ≠ .error (.fault fault) :=
    evalGridWithin_ne_fault h hd
  rw [evalGrid]
  cases hf : e.evalGridWithin maxDepth xs ys with
  | ok f => simp only [bind, Except.bind, hj]; rfl
  | error fault =>
    cases fault with
    | fault fault => exact absurd hf (hne fault)
    | shapes => rfl

end Grid

end Relief.Expr
