import Mathlib
import Relief.Proofs.Evaluator.Compile
import Relief.Proofs.Workspace.Freshness
import Relief.Proofs.Workspace.Locality
import Relief.Proofs.Workspace.Rebuild

/-!
What an equation answers at a point is what its current text says there, although a formula that is drawn
is asked without looking at the text again.
-/
namespace Relief

theorem PointValue.evaluate_congr {t t' : Target} (h : ∀ px py, ofTarget t px py = ofTarget t' px py)
    (x y : Value) : evaluate t x y = evaluate t' x y := by
  have ht : ofTarget t = ofTarget t' := by
    funext px py
    exact h px py
  unfold evaluate
  rw [ht]

theorem PointValue.ofTarget_of_build {text : String} {f : Evaluator}
    (h : Evaluator.build text = .ok f) (px py : Float) :
    ofTarget (.formula text) px py = ofTarget (.evaluator f) px py := by
  unfold ofTarget
  dsimp only
  rw [h]

namespace Equation

variable {e : Equation} {d : Domain Float} {f : Evaluator}

theorem target_cases (e : Equation) :
    (∃ f, e.evaluator? = some f ∧ e.rejection = none ∧ e.target = .evaluator f) ∨
      e.target = .formula e.expression := by
  rw [target]
  split
  · next f hf hn => exact .inl ⟨f, hf, hn, rfl⟩
  · exact .inr rfl

/-- A formula that answers for the equation is that of the text. A blank text has none, and a text that
was refused answers for itself. -/
theorem Settled.compile_of_target (h : e.Settled d) (hs : e.Sound) (ht : e.target = .evaluator f) :
    Evaluator.compile e.expression = .ok f := by
  obtain ⟨g, hg, hn, hg'⟩ | ht' := e.target_cases
  · obtain rfl : g = f := Target.evaluator.inj (hg'.symm.trans ht)
    refine h.current ?_ hn g hg
    by_contra hb
    have hnone := (hs.blank (Bool.eq_true_of_not_eq_false hb)).1
    rw [hg] at hnone
    cases hnone
  · rw [ht] at ht'
    cases ht'

theorem Settled.evaluate_target (h : e.Settled d) (hs : e.Sound) (x y : Value) :
    PointValue.evaluate e.target x y = PointValue.evaluate (.formula e.expression) x y := by
  apply PointValue.evaluate_congr
  intro px py
  obtain ⟨f, -, -, ht⟩ | ht := e.target_cases
  · have hb := (Evaluator.build_of_compile (h.compile_of_target hs ht)).1
    rw [ht, PointValue.ofTarget_of_build hb]
  · rw [ht]

end Equation

namespace Workspace

variable {w : Workspace} {id : Int} {e : Equation}

theorem perform_evaluate_found (hf : w.find? id = some e) (x y : Value) :
    perform (evaluate id x y) w =
      ((PointValue.evaluate e.target x y).mapError Failure.crashed, w) := by
  rw [evaluate, perform_bind, perform_get, hf]
  dsimp only
  cases PointValue.evaluate e.target x y <;> rfl

/-- In every reachable workspace an equation answers at a point, given by any data, as its current text
does: the same value or words, or the same crash. A formula that answers without the text being read is
the one that the text is compiled to. -/
theorem evaluate_current (h : Reachable w) (hf : w.find? id = some e) :
    (∀ x y, perform (evaluate id x y) w =
      ((PointValue.evaluate (.formula e.expression) x y).mapError Failure.crashed, w)) ∧
    ∀ f, e.target = .evaluator f → Evaluator.compile e.expression = .ok f := by
  have hm := (mem_of_find? hf).1
  have hset := h.settled e hm
  have hs := h.consistent.sound e hm
  refine ⟨fun x y => ?_, fun f ht => hset.compile_of_target hs ht⟩
  rw [perform_evaluate_found hf, hset.evaluate_target hs]

/-! ### Edits -/

theorem Reachable.step (h : Reachable w) (op : Operation) {w' : Workspace}
    (hp : perform op.action w = (.ok (), w')) : Reachable w' := by
  obtain ⟨d, mode, hl⟩ := h
  have hstep := hl.step op (by rw [hp]; trivial)
  rw [hp] at hstep
  exact ⟨d, mode, hstep⟩

theorem Reachable.drawn (h : Reachable w) {text : String} {f : Evaluator}
    (hb : text.toList.all Text.isBlank = false) (hf : Evaluator.compile text = .ok f)
    (color : String) :
    ∃ m, Reachable (w.appended ((undrawn w.nextId text color true).install f m w.domain)) := by
  obtain ⟨m, hm⟩ := Evaluator.ofEvaluator_of_compile hf w.domain
  let e := undrawn w.nextId text color true
  have hd : (if true then e.redraw w.domain else .ok e) = .ok (e.install f m w.domain) := by
    rw [if_pos rfl]
    exact Equation.redraw_of_sample hb hf hm
  have hp := perform_add_ok h.consistent.ordered hd
  refine ⟨m, h.step (.add text (some color) true) ?_⟩
  rw [Operation.action, perform_discard, hp]
  rfl

theorem Reachable.rejected (h : Reachable w) {text : String} {r : Rejection}
    (hf : w.find? id = some e) (hb : text.toList.all Text.isBlank = false)
    (hr : Evaluator.compile text = .error (.rejected r)) :
    Reachable (w.replace { e with expression := text, rejection := some r }) := by
  let e₁ := { e with expression := text }
  have hid : e₁.id = e.id := rfl
  have hd : e₁.redraw w.domain = .ok { e₁ with rejection := some r } :=
    Equation.redraw_of_rejected hb hr
  refine h.step (.setExpression id text) ?_
  rw [Operation.action, perform_setExpression hf, perform_discard,
    perform_recompute_replace hf hid, hd]
  rfl

/-- A variable that is drawn and then turned into a sum without a second term answers as the sum. -/
theorem evaluate_current_sum : ∃ w e, Reachable w ∧ w.find? 1 = some e ∧ e.expression = "x+" ∧
    e.evaluator?.isSome = true ∧ perform (evaluate 1 (.int 2) (.int 3)) w =
      ((PointValue.evaluate (.formula "x+") (.int 2) (.int 3)).mapError Failure.crashed, w) := by
  obtain ⟨f, hf⟩ := Evaluator.compile_variable
  obtain ⟨r, hr⟩ := Evaluator.compile_sum
  have hempty : Reachable (empty .standard .solid) := ⟨_, _, .refl⟩
  obtain ⟨m, hdrawn⟩ := hempty.drawn (by decide +kernel) hf "#6366f1"
  have hfind := hdrawn.consistent.ordered.find?_eq_some (List.mem_singleton_self _)
  have hrejected := hdrawn.rejected hfind (by decide +kernel) hr
  exact ⟨_, _, hrejected, find?_replace hfind rfl, rfl, rfl,
    (evaluate_current hrejected (find?_replace hfind rfl)).1 (.int 2) (.int 3)⟩

end Workspace

end Relief
