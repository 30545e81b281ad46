import Mathlib
import Relief.Proofs.Evaluator.Compile
import Relief.Proofs.Workspace.Consistency

/-!
What stops a workspace for good is the text of an equation that is drawn, and only a text that the compiler
neither accepts nor refuses. Without one, all equations are drawn again, each of them alone.
-/
namespace Relief

open Relief.Shorthand

namespace Equation

variable {e : Equation} {d : Domain Float} {c : Crash}

theorem redraw_eq_error_iff : e.redraw d = .error c ↔
    e.isBlank = false ∧ Evaluator.compile e.expression = .error (.crashed c) := by
  rw [redraw]
  cases hb : e.isBlank with
  | true => simp
  | false =>
    simp only [Bool.false_eq_true, if_false, true_and]
    split
    · next r hr => simp [hr]
    · next c' hc => simp [hc]
    · next f hf =>
      obtain ⟨m, hm⟩ := Evaluator.ofEvaluator_of_compile hf d
      rw [sample_eq_ok_iff.2 hm, hf]
      exact ⟨fun h => absurd h ok_ne_error, fun h => absurd h ok_ne_error⟩

theorem refresh_eq_error_iff : e.refresh d = .error c ↔
    e.isShown = true ∧ Evaluator.compile e.expression = .error (.crashed c) := by
  rw [refresh]
  cases hs : e.isShown with
  | true =>
    simp only [isShown, Bool.and_eq_true, Bool.not_eq_true'] at hs
    rw [if_pos rfl, redraw_eq_error_iff, hs.2]
    simp
  | false => simp

end Equation

namespace Workspace

variable {w : Workspace} {op : Operation} {c : Crash}

/-- The operations that draw equations. -/
def Operation.Draws : Operation → Prop
  | add .. | setExpression .. | recompute _ | recomputeAll | toggle _ | setDomain _ => True
  | _ => False

/-- The texts that an operation may have compiled. -/
def Operation.texts (w : Workspace) : Operation → List String
  | add expression _ _ => [expression]
  | setExpression _ text => [text]
  | recompute id | toggle id => (w.find? id).toList.map (·.expression)
  | recomputeAll | setDomain _ => (w.equations.filter Equation.isShown).map (·.expression)
  | _ => []

/-- All equations are drawn again, or the text of one of them stops it. -/
theorem perform_recomputeAll_cases (hw : Ordered w) :
    (∃ es, List.Forall₂ (fun e e' => e.refresh w.domain = .ok e') w.equations es ∧
      perform recomputeAll w = (.ok (), { w with equations := es })) ∨
    ∃ e ∈ w.equations, e.isShown = true ∧ ∃ c,
      Evaluator.compile e.expression = .error (.crashed c) ∧
      (perform recomputeAll w).1 = .error (.crashed c) := by
  refine (perform_recomputeAll hw).imp_right ?_
  rintro ⟨e, he, c, hr, w', hp⟩
  obtain ⟨hs, hc⟩ := Equation.refresh_eq_error_iff.1 hr
  exact ⟨e, he, hs, c, hc, by rw [hp]⟩

theorem setDomain_cases (hw : Ordered w) (d : Domain Float) :
    (∃ es, List.Forall₂ (fun e e' => e.refresh d = .ok e') w.equations es ∧
      perform (setDomain d) w = (.ok (), { w with domain := d, equations := es })) ∨
    ∃ e ∈ w.equations, e.isShown = true ∧ ∃ c,
      Evaluator.compile e.expression = .error (.crashed c) ∧
      (perform (setDomain d) w).1 = .error (.crashed c) :=
  perform_recomputeAll_cases (w := { w with domain := d }) (hw.of_ids rfl (Nat.le_refl _))

theorem mem_texts_of_shown {e : Equation} (he : e ∈ w.equations) (hs : e.isShown = true) :
    e.expression ∈ (w.equations.filter Equation.isShown).map (·.expression) :=
  List.mem_map_of_mem (List.mem_filter.2 ⟨he, hs⟩)

theorem mem_texts_of_find? {e : Equation} {id : Int} (h : w.find? id = some e) :
    e.expression ∈ (w.find? id).toList.map (·.expression) := by
  rw [h]
  exact List.mem_singleton_self _

theorem map_eq_crashed {α β : Type} {f : α → β} {r : Except Failure α}
    (h : r.map f = .error (.crashed c)) : r = .error (.crashed c) := by
  cases r with
  | ok a => cases h
  | error e => exact congrArg Except.error (Except.error.inj h)

theorem crash_recompute {id : Int} (h : (perform (recompute id) w).1 = .error (.crashed c)) :
    ∃ e, w.find? id = some e ∧ Evaluator.compile e.expression = .error (.crashed c) := by
  rw [perform_recompute] at h
  cases hf : w.find? id with
  | none => simp [hf] at h
  | some e =>
    simp only [hf] at h
    cases hr : e.redraw w.domain with
    | ok e' => simp [hr] at h
    | error c' =>
      rw [hr] at h
      cases h
      exact ⟨e, rfl, (Equation.redraw_eq_error_iff.1 hr).2⟩

theorem crash_recompute_replace {e e₁ : Equation} {id : Int} (hf : w.find? id = some e)
    (hid : e₁.id = e.id)
    (h : (perform (recompute id) (w.replace e₁)).1 = .error (.crashed c)) :
    Evaluator.compile e₁.expression = .error (.crashed c) := by
  obtain ⟨o, ho, hc⟩ := crash_recompute h
  rw [find?_replace hf hid] at ho
  cases ho
  exact hc

theorem crash_setExpression {id : Int} {text : String}
    (h : (perform (setExpression id text) w).1 = .error (.crashed c)) :
    Evaluator.compile text = .error (.crashed c) := by
  rw [setExpression, perform_bind, perform_get] at h
  cases hf : w.find? id with
  | none => simp [hf] at h
  | some e =>
    simp only [hf, perform_bind, perform_put] at h
    have hid : ({ e with expression := text } : Equation).id = e.id := rfl
    have hc := crash_recompute_replace hf hid h
    exact hc

theorem crash_toggle {id : Int} (h : (perform (toggle id) w).1 = .error (.crashed c)) :
    ∃ e, w.find? id = some e ∧ Evaluator.compile e.expression = .error (.crashed c) := by
  rw [toggle, perform_bind, perform_get] at h
  cases hf : w.find? id with
  | none => simp [hf] at h
  | some e =>
    simp only [hf, perform_bind, perform_put, perform_getThe] at h
    have hid : ({ e with visible := !e.visible } : Equation).id = e.id := rfl
    split at h
    · have hc := crash_recompute_replace hf hid h
      exact ⟨e, rfl, hc⟩
    · cases h

theorem crash_add (hw : Ordered w) {expression : String} {color : Option String} {visible : Bool}
    (h : (perform (add expression color visible) w).1 = .error (.crashed c)) :
    Evaluator.compile expression = .error (.crashed c) := by
  rw [perform_add hw] at h
  dsimp only at h
  cases visible with
  | false => cases h
  | true =>
    rw [if_pos rfl] at h
    split at h
    · cases h
    · next hr =>
      cases h
      exact (Equation.redraw_eq_error_iff.1 hr).2

/-- An operation that crashes does so because of a text. -/
theorem Operation.crash (hw : Ordered w) (hop : op.Draws)
    (h : (perform op.action w).1 = .error (.crashed c)) :
    ∃ text ∈ op.texts w, Evaluator.compile text = .error (.crashed c) := by
  cases op with
  | add expression color visible =>
    rw [action, perform_discard] at h
    exact ⟨expression, List.mem_singleton_self _, crash_add hw (map_eq_crashed h)⟩
  | setExpression id text =>
    rw [action, perform_discard] at h
    exact ⟨text, List.mem_singleton_self _, crash_setExpression (map_eq_crashed h)⟩
  | recompute id =>
    rw [action, perform_discard] at h
    obtain ⟨e, hf, hc⟩ := crash_recompute (map_eq_crashed h)
    exact ⟨e.expression, mem_texts_of_find? hf, hc⟩
  | toggle id =>
    rw [action, perform_discard] at h
    obtain ⟨e, hf, hc⟩ := crash_toggle (map_eq_crashed h)
    exact ⟨e.expression, mem_texts_of_find? hf, hc⟩
  | recomputeAll =>
    obtain ⟨es, -, hp⟩ | ⟨e, he, hs, c', hc, hp⟩ := perform_recomputeAll_cases hw
    · rw [action, hp] at h
      cases h
    · rw [action, hp] at h
      cases h
      exact ⟨_, mem_texts_of_shown he hs, hc⟩
  | setDomain d =>
    obtain ⟨es, -, hp⟩ | ⟨e, he, hs, c', hc, hp⟩ := setDomain_cases hw d
    · rw [action, hp] at h
      cases h
    · rw [action, hp] at h
      cases h
      exact ⟨_, mem_texts_of_shown he hs, hc⟩
  | setColorMode | delete | measures | extrema | colors | evaluate => exact hop.elim

/-- A text is accepted or refused, unless it has a function's name with a foreign letter, or its tree is too
deep to be evaluated. In a reachable workspace only texts of the latter kinds stop an operation that
draws. A change of the domain draws every equation that is shown, each of them alone, unless one of
these has such a text. -/
theorem draws_unless_hindered (hw : Reachable w) :
    (∀ text, (∃ f, Evaluator.compile text = .ok f) ∨
      (∃ r, Evaluator.compile text = .error (.rejected r)) ∨ ∃ c, Evaluator.Hinders text c) ∧
    (∀ text c, Evaluator.compile text = .error (.crashed c) ↔ Evaluator.Hinders text c) ∧
    (∀ op : Operation, op.Draws → ∀ c, (perform op.action w).1 = .error (.crashed c) →
      ∃ text ∈ op.texts w, Evaluator.Hinders text c) ∧
    ∀ d, (∃ es, List.Forall₂ (fun e e' => e.refresh d = .ok e') w.equations es ∧
        perform (setDomain d) w = (.ok (), { w with domain := d, equations := es })) ∨
      ∃ e ∈ w.equations, e.isShown = true ∧ ∃ c, Evaluator.Hinders e.expression c ∧
        (perform (setDomain d) w).1 = .error (.crashed c) := by
  refine ⟨fun text => ?_, fun text c => Evaluator.compile_eq_crashed_iff, fun op hop c h => ?_,
    fun d => ?_⟩
  · cases hc : Evaluator.compile text with
    | ok f => exact .inl ⟨f, rfl⟩
    | error e =>
      cases e with
      | rejected r => exact .inr (.inl ⟨r, rfl⟩)
      | crashed c => exact .inr (.inr ⟨c, Evaluator.compile_eq_crashed_iff.1 hc⟩)
  · obtain ⟨text, ht, hc⟩ := op.crash hw.consistent.ordered hop h
    exact ⟨text, ht, Evaluator.compile_eq_crashed_iff.1 hc⟩
  · refine (setDomain_cases hw.consistent.ordered d).imp_right ?_
    rintro ⟨e, he, hs, c, hc, hp⟩
    exact ⟨e, he, hs, c, Evaluator.compile_eq_crashed_iff.1 hc, hp⟩

/-- A sine with a long s is not drawn when it is to be shown again. -/
theorem draws_unless_hindered_sine :
    let w := (perform (Operation.add "ſin(x)" none false).action (empty .standard .solid)).2
    let c : Crash := .foreignSpelling ⟨"ſin"⟩
    (perform (Operation.toggle 1).action w).1 = .error (.crashed c) ∧
      ∃ text ∈ (Operation.toggle 1).texts w, Evaluator.Hinders text c := by
  intro w c
  have hc : Evaluator.compile "ſin(x)" = .error (.crashed c) := by
    have hs : Shorthand.expand "ſin(x)" = .error ⟨"ſin"⟩ := by
      decide +kernel
    apply Evaluator.compile_of_build_error
    rw [Evaluator.build_eq, hs]
  have hw : Reachable w := ⟨.standard, .solid, .step (.add "ſin(x)" none false) .refl trivial⟩
  have hcrash : (perform (Operation.toggle 1).action w).1 = .error (.crashed c) := by
    have hf : w.find? 1 = some (undrawn 1 "ſin(x)" "#6366f1" false) := rfl
    have hr : (undrawn 1 "ſin(x)" "#6366f1" true).redraw w.domain = .error c :=
      Equation.redraw_eq_error_iff.2 ⟨by decide +kernel, hc⟩
    have hs : (undrawn 1 "ſin(x)" "#6366f1" true).isShown = true := by
      decide +kernel
    rw [Operation.action, perform_discard, toggle, perform_bind, perform_get]
    simp only [hf, perform_bind, perform_put, perform_getThe]
    have hp : perform (recompute 1) (w.replace (undrawn 1 "ſin(x)" "#6366f1" true)) = _ :=
      perform_recompute_replace hf rfl
    rw [hr] at hp
    rw [if_pos (by exact Bool.and_eq_true_iff.2 ⟨hs, rfl⟩)]
    exact congrArg (fun r => r.map fun _ => ()) (congrArg Prod.fst hp)
  exact ⟨hcrash, (draws_unless_hindered hw).2.2.1 (.toggle 1) trivial c hcrash⟩

end Workspace

end Relief
