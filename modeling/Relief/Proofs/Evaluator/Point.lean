import Mathlib
import Relief.PointValue
import Relief.Proofs.Evaluator.Compile
import Relief.Proofs.Number.Integer

/-!
What a text says at a point given by data of any type. It always says something, unless a coordinate is
an integer beyond the doubles or the text cannot be evaluated at all.
-/
namespace Relief

open Relief.Number

namespace Value

/-- An integer that no double is near to. -/
def IsHuge (v : Value) : Prop := ∃ n, v = .int n ∧ overflowBound ≤ n.natAbs

/-- What is taken for a number, and is one. -/
def IsNumber (v : Value) : Prop := ∃ c, v.toFloat = .ok c ∧ c.isNaN = false

variable {v : Value} {c : Float}

theorem toFloat_eq_tooLarge_iff : v.toFloat = .error .tooLarge ↔ v.IsHuge := by
  constructor
  · intro h
    unfold toFloat at h
    split at h
    · cases h
    · next n =>
      split at h
      · cases h
      · next hn => exact ⟨n, rfl, (floatOfInt?_eq_none_iff n).1 hn⟩
    · cases h
    · split at h <;> cases h
    · cases h
  · rintro ⟨n, rfl, hn⟩
    rw [toFloat, (floatOfInt?_eq_none_iff n).2 hn]

theorem isNumber_iff_of_toFloat (h : v.toFloat = .ok c) : v.IsNumber ↔ c.isNaN = false := by
  refine ⟨fun ⟨c', hc, hn⟩ => ?_, fun hn => ⟨c, h, hn⟩⟩
  rw [h] at hc
  exact Except.ok.inj hc ▸ hn

end Value

namespace PointValue

variable {t : Target} {text : String} {x y : Value} {p : Point} {c : Crash}

/-! ### Coordinates -/

theorem coordinate?_cases (v : Value) :
    (v.IsHuge ∧ coordinate? v = .error .tooLarge) ∨
    (¬ v.IsNumber ∧ coordinate? v = .ok none) ∨
    ∃ c, v.toFloat = .ok c ∧ coordinate? v = .ok (some c) := by
  rw [coordinate?]
  cases h : v.toFloat with
  | ok c => exact .inr (.inr ⟨c, rfl, rfl⟩)
  | error e =>
    have hn : ¬ v.IsNumber := by
      rintro ⟨c, hc, -⟩
      rw [h] at hc
      cases hc
    cases e with
    | tooLarge => exact .inl ⟨Value.toFloat_eq_tooLarge_iff.1 h, rfl⟩
    | wrongType name => exact .inr (.inl ⟨hn, rfl⟩)
    | malformed s => exact .inr (.inl ⟨hn, rfl⟩)

/-- Data that stand for a point. -/
structure IsPoint (x y : Value) (p : Point) : Prop where
  first : x.toFloat = .ok p.x
  second : y.toFloat = .ok p.y
  first_isNaN : p.x.isNaN = false
  second_isNaN : p.y.isNaN = false

theorem IsPoint.isNumber (h : IsPoint x y p) : x.IsNumber ∧ y.IsNumber :=
  ⟨⟨p.x, h.first, h.first_isNaN⟩, ⟨p.y, h.second, h.second_isNaN⟩⟩

theorem evaluate_of_huge_first (h : x.IsHuge) : evaluate t x y = .error .tooLarge := by
  rw [evaluate, coordinate?, Value.toFloat_eq_tooLarge_iff.2 h]
  rfl

theorem evaluate_of_huge_second {v : Float} (hx : x.toFloat = .ok v) (hy : y.IsHuge) :
    evaluate t x y = .error .tooLarge := by
  rw [evaluate, coordinate?, hx, coordinate?, Value.toFloat_eq_tooLarge_iff.2 hy]
  rfl

theorem evaluate_of_isPoint (h : IsPoint x y p) : evaluate t x y = ofTarget t p.x p.y := by
  have hn : (p.x.isNaN || p.y.isNaN) = false := by rw [h.first_isNaN, h.second_isNaN]; rfl
  simp only [evaluate, coordinate?, h.first, h.second, bind, Except.bind, hn, Bool.false_eq_true,
    if_false]

/-- The coordinates are looked at first, one after the other. -/
theorem evaluate_cases (t : Target) (x y : Value) :
    x.IsHuge ∨ (∃ v, x.toFloat = .ok v ∧ y.IsHuge) ∨
    ((¬ x.IsNumber ∨ ¬ y.IsNumber) ∧ evaluate t x y = .ok invalidInput) ∨ ∃ p, IsPoint x y p := by
  obtain ⟨hx, -⟩ | ⟨hx, hcx⟩ | ⟨px, hx, hcx⟩ := coordinate?_cases x
  · exact .inl hx
  · refine .inr (.inr (.inl ⟨.inl hx, ?_⟩))
    rw [evaluate, hcx]
    rfl
  · obtain ⟨hy, -⟩ | ⟨hy, hcy⟩ | ⟨py, hy, hcy⟩ := coordinate?_cases y
    · exact .inr (.inl ⟨px, hx, hy⟩)
    · refine .inr (.inr (.inl ⟨.inr hy, ?_⟩))
      rw [evaluate, hcx, hcy]
      rfl
    · by_cases hn : (px.isNaN || py.isNaN) = true
      · refine .inr (.inr (.inl ⟨?_, ?_⟩))
        · rw [Value.isNumber_iff_of_toFloat hx, Value.isNumber_iff_of_toFloat hy,
            Bool.not_eq_false, Bool.not_eq_false]
          exact Bool.or_eq_true_iff.1 hn
        · simp only [evaluate, hcx, hcy, bind, Except.bind, hn, if_true]
          rfl
      · obtain ⟨h1, h2⟩ := Bool.or_eq_false_iff.1 (Bool.eq_false_iff.2 hn)
        exact .inr (.inr (.inr ⟨⟨px, py⟩, hx, hy, h1, h2⟩))

/-! ### Formulas -/

theorem ofTarget_formula (text : String) (x y : Float) : ofTarget (.formula text) x y =
    match Evaluator.build text with
    | .ok f => ofEvaluator f x y
    | .error (.rejected r) => .ok (error r.message)
    | .error (.crashed c) => .error c := by
  unfold ofTarget
  rcases hb : Evaluator.build text with (r | c) | f
  all_goals
    dsimp only
    rw [hb]

theorem ofTarget_of_hinders (h : Evaluator.Hinders text c) :
    ofTarget (.formula text) p.x p.y = .error c := by
  cases h with
  | @foreign s hs _ _ =>
    have hb : Evaluator.build text = .error (.crashed (.foreignSpelling s)) := by
      rw [Evaluator.build_eq, hs]
    rw [ofTarget_formula, hb]
  | @deep f hb hd =>
    have hv : f.call p.x p.y = .error .tooDeep :=
      Expr.eval_eq_tooDeep (Evaluator.wellFormed_of_build hb) ⟨p.x, p.y⟩ hd
    rw [ofTarget_formula, hb]
    dsimp only
    rw [ofEvaluator, hv]

theorem ofTarget_of_rejected {r : Rejection} (h : Evaluator.build text = .error (.rejected r)) :
    ofTarget (.formula text) p.x p.y = .ok (.error r.message) := by
  rw [ofTarget_formula, h]

theorem ofTarget_of_call {f : Evaluator} {v : Float} (h : Evaluator.build text = .ok f)
    (hv : f.call p.x p.y = .ok v) : ofTarget (.formula text) p.x p.y = .ok (ofFloat v) := by
  rw [ofTarget_formula, h]
  dsimp only
  rw [ofEvaluator, hv]

/-- A text that is built can be evaluated, or is too deep. -/
theorem build_cases (text : String) (p : Point) :
    (∃ c, Evaluator.Hinders text c) ∨ (∃ r, Evaluator.build text = .error (.rejected r)) ∨
    ∃ f v, Evaluator.build text = .ok f ∧ f.call p.x p.y = .ok v := by
  cases hb : Evaluator.build text with
  | ok f =>
    obtain hd | hd := Nat.lt_or_ge Expr.maxDepth f.tree.height
    · exact .inl ⟨_, .deep hb hd⟩
    · exact .inr (.inr ⟨f, _, rfl, Expr.eval_eq_ok (Evaluator.wellFormed_of_build hb) p hd⟩)
  | error e =>
    cases e with
    | rejected r => exact .inr (.inl ⟨r, rfl⟩)
    | crashed c =>
      exact .inl ⟨c, Evaluator.compile_eq_crashed_iff.1 (Evaluator.compile_of_build_error hb)⟩

/-! ### Outcomes -/

/-- What keeps a text from saying anything: an integer beyond the doubles, if it is come to, or what
hinders the text itself. -/
inductive Prevents (text : String) (x y : Value) : Crash → Prop where
  | first : x.IsHuge → Prevents text x y .tooLarge
  | second {v : Float} : x.toFloat = .ok v → y.IsHuge → Prevents text x y .tooLarge
  | formula {p : Point} {c : Crash} : IsPoint x y p → Evaluator.Hinders text c →
    Prevents text x y c

theorem evaluate_of_prevents (h : Prevents text x y c) :
    evaluate (.formula text) x y = .error c := by
  cases h with
  | first hx => exact evaluate_of_huge_first hx
  | second hx hy => exact evaluate_of_huge_second hx hy
  | formula hp hc => rw [evaluate_of_isPoint hp, ofTarget_of_hinders hc]

/-- The value of a text at a point. -/
def HasValue (text : String) (x y : Value) (v : Float) : Prop :=
  ∃ p f, IsPoint x y p ∧ Evaluator.build text = .ok f ∧ f.call p.x p.y = .ok v

/-- What a text says at a point. -/
inductive Says (text : String) (x y : Value) : PointValue → Prop where
  | invalid : ¬ x.IsNumber ∨ ¬ y.IsNumber → Says text x y invalidInput
  | rejected {r : Rejection} : x.IsNumber → y.IsNumber →
    Evaluator.build text = .error (.rejected r) → Says text x y (.error r.message)
  | value {v : Float} : HasValue text x y v → Says text x y (ofFloat v)

/-- A text says something, or something keeps it from it. -/
theorem evaluate_formula_cases (text : String) (x y : Value) :
    (∃ c, Prevents text x y c) ∨
      ∃ r, evaluate (.formula text) x y = .ok r ∧ Says text x y r := by
  obtain hx | ⟨v, hx, hy⟩ | ⟨hn, he⟩ | ⟨p, hp⟩ := evaluate_cases (.formula text) x y
  · exact .inl ⟨_, .first hx⟩
  · exact .inl ⟨_, .second hx hy⟩
  · exact .inr ⟨_, he, .invalid hn⟩
  · rw [evaluate_of_isPoint hp]
    obtain ⟨c, hc⟩ | ⟨r, hr⟩ | ⟨f, v, hf, hv⟩ := build_cases text p
    · exact .inl ⟨c, .formula hp hc⟩
    · exact .inr ⟨_, ofTarget_of_rejected hr, .rejected hp.isNumber.1 hp.isNumber.2 hr⟩
    · exact .inr ⟨_, ofTarget_of_call hf hv, .value ⟨p, f, hp, hf, hv⟩⟩

theorem IsPoint.unique {p' : Point} (h : IsPoint x y p) (h' : IsPoint x y p') : p = p' := by
  obtain ⟨px, py⟩ := p
  obtain ⟨px', py'⟩ := p'
  obtain rfl : px = px' := Except.ok.inj (h.first.symm.trans h'.first)
  obtain rfl : py = py' := Except.ok.inj (h.second.symm.trans h'.second)
  rfl

theorem HasValue.unique {v v' : Float} (h : HasValue text x y v) (h' : HasValue text x y v') :
    v = v' := by
  obtain ⟨p, f, hp, hf, hv⟩ := h
  obtain ⟨p', f', hp', hf', hv'⟩ := h'
  obtain rfl := hp.unique hp'
  rw [hf] at hf'
  obtain rfl := Except.ok.inj hf'
  exact Except.ok.inj (hv.symm.trans hv')

theorem HasValue.not_rejected {v : Float} (h : HasValue text x y v) (r : Rejection) :
    Evaluator.build text ≠ .error (.rejected r) := by
  obtain ⟨p, f, -, hf, -⟩ := h
  rw [hf]
  exact nofun

theorem HasValue.isNumber {v : Float} (h : HasValue text x y v) : x.IsNumber ∧ y.IsNumber := by
  obtain ⟨p, f, hp, -, -⟩ := h
  exact hp.isNumber

theorem Says.error_iff {r : PointValue} (h : Says text x y r) (m : String) :
    r = .error m ↔
      ((¬ x.IsNumber ∨ ¬ y.IsNumber) ∧ m = "Invalid input") ∨
      (x.IsNumber ∧ y.IsNumber ∧
        ∃ e, Evaluator.build text = .error (.rejected e) ∧ m = e.message) := by
  cases h with
  | invalid hn =>
    constructor
    · intro h
      exact .inl ⟨hn, (PointValue.error.inj h).symm⟩
    · rintro (⟨-, rfl⟩ | ⟨hx, hy, -⟩)
      · rfl
      · exact absurd hx (hn.resolve_right (not_not_intro hy))
  | @rejected r hx hy hr =>
    constructor
    · intro h
      exact .inr ⟨hx, hy, r, hr, (PointValue.error.inj h).symm⟩
    · rintro (⟨hn, -⟩ | ⟨-, -, e, he, rfl⟩)
      · exact absurd hx (hn.resolve_right (not_not_intro hy))
      · rw [hr] at he
        cases he
        rfl
  | value hv =>
    constructor
    · intro h
      rw [ofFloat] at h
      split at h <;> cases h
    · rintro (⟨hn, -⟩ | ⟨-, -, e, he, -⟩)
      · exact absurd hv.isNumber.1 (hn.resolve_right (not_not_intro hv.isNumber.2))
      · exact absurd he (hv.not_rejected e)

theorem Says.eq_of_hasValue {r : PointValue} {v : Float} (h : Says text x y r)
    (hv : HasValue text x y v) : r = ofFloat v := by
  cases h with
  | invalid hn => exact absurd hv.isNumber.1 (hn.resolve_right (not_not_intro hv.isNumber.2))
  | @rejected r _ _ hr => exact absurd hr (hv.not_rejected r)
  | value hv' => rw [hv.unique hv']

theorem Says.ok_iff {r : PointValue} (h : Says text x y r) (v : Float) :
    r = .ok v ↔ HasValue text x y v ∧ v.isFinite = true := by
  constructor
  · rintro rfl
    generalize hr : ok v = r at h
    cases h with
    | invalid hn => cases hr
    | rejected _ _ _ => cases hr
    | value hv =>
      rw [ofFloat] at hr
      split at hr
      · next hf =>
        cases hr
        exact ⟨hv, hf⟩
      · cases hr
  · rintro ⟨hv, hf⟩
    rw [h.eq_of_hasValue hv, ofFloat, if_pos hf]

theorem Says.undefined_iff {r : PointValue} (h : Says text x y r) (v : Float) :
    r = .undefined v ↔ HasValue text x y v ∧ v.isFinite = false := by
  constructor
  · rintro rfl
    generalize hr : undefined v = r at h
    cases h with
    | invalid hn => cases hr
    | rejected _ _ _ => cases hr
    | value hv =>
      rw [ofFloat] at hr
      split at hr
      · cases hr
      · next hf =>
        cases hr
        exact ⟨hv, Bool.eq_false_iff.2 hf⟩
  · rintro ⟨hv, hf⟩
    rw [h.eq_of_hasValue hv, ofFloat, if_neg (Bool.eq_false_iff.1 hf)]

/-- A text at a point given by any data has an answer, except where the first coordinate is an integer
beyond the doubles, where the second one is and the first is taken for a number, and where the point is
one but the text has a function's name with a foreign letter or a tree that is too deep. An answer is an
error exactly if a coordinate is no number, which is said first, or the text is refused; else it is the
value of the text at the point, undefined exactly if that is not finite. -/
theorem evaluate_formula (text : String) (x y : Value) :
    (∀ c, evaluate (.formula text) x y = .error c ↔ Prevents text x y c) ∧
    ∀ r, evaluate (.formula text) x y = .ok r →
      (∀ m, r = .error m ↔
        ((¬ x.IsNumber ∨ ¬ y.IsNumber) ∧ m = "Invalid input") ∨
        (x.IsNumber ∧ y.IsNumber ∧
          ∃ e, Evaluator.build text = .error (.rejected e) ∧ m = e.message)) ∧
      (∀ v, r = .undefined v ↔ HasValue text x y v ∧ v.isFinite = false) ∧
      ∀ v, r = .ok v ↔ HasValue text x y v ∧ v.isFinite = true := by
  obtain ⟨c, hc⟩ | ⟨r, hr, hs⟩ := evaluate_formula_cases text x y
  · have he := evaluate_of_prevents hc
    refine ⟨fun c' => ⟨fun h => ?_, evaluate_of_prevents⟩, fun r hr => ?_⟩
    · rw [he] at h
      exact Except.error.inj h ▸ hc
    · rw [he] at hr
      cases hr
  · refine ⟨fun c => ⟨fun h => ?_, evaluate_of_prevents⟩, fun r' hr' => ?_⟩
    · rw [hr] at h
      cases h
    · rw [hr] at hr'
      obtain rfl := Except.ok.inj hr'
      exact ⟨hs.error_iff, hs.undefined_iff, hs.ok_iff⟩

/-- Data without a value are no coordinate, whatever the text. -/
theorem evaluate_formula_null :
    evaluate (.formula "x") (.bool true) .null = .ok (.error "Invalid input") := by
  have hbool : ¬ (Value.bool true).IsHuge := fun ⟨_, h, _⟩ => nomatch h
  have hnull : ¬ Value.null.IsHuge := fun ⟨_, h, _⟩ => nomatch h
  have hnumber : ¬ Value.null.IsNumber := fun ⟨_, h, _⟩ => nomatch h
  obtain ⟨herr, hok⟩ := evaluate_formula "x" (.bool true) .null
  cases h : evaluate (.formula "x") (.bool true) .null with
  | error c =>
    cases (herr c).1 h with
    | first hx => exact absurd hx hbool
    | second _ hy => exact absurd hy hnull
    | formula hp _ => exact absurd hp.isNumber.2 hnumber
  | ok r => rw [((hok r h).1 "Invalid input").2 (.inl ⟨.inr hnumber, rfl⟩)]

/-- An integer that is too large is no error but a crash. -/
theorem evaluate_huge :
    evaluate (.formula "x") (.int (10 ^ 400)) (.int 0) = .error .tooLarge := by
  apply evaluate_of_huge_first
  refine ⟨_, rfl, ?_⟩
  decide +kernel

end PointValue

end Relief
