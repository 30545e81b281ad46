import Mathlib
import Relief.Equation

/-!
What is written of a list of equations: something of each that is drawn, in order.
-/
namespace Relief.Format

variable {α β γ : Type} {es : List Equation}

theorem require_eq_ok {ss : List Surface} (h : ss ≠ []) : require ss = .ok ss := by
  rw [require, if_neg (by simpa using h)]

theorem surfaces_ne_nil (h : ∃ e ∈ es, e.mesh?.isSome = true) :
    es.filterMap Equation.surface? ≠ [] := by
  obtain ⟨e, he, hm⟩ := h
  obtain ⟨m, hm⟩ := Option.isSome_iff_exists.1 hm
  refine List.ne_nil_of_mem (a := ⟨e.id, e.expression, e.color, m⟩) ?_
  rw [List.mem_filterMap]
  exact ⟨e, he, by rw [Equation.surface?, hm]; rfl⟩

/-- What is made of all surfaces is made of the equations that have one. -/
theorem flatMap_surfaces (f : Surface → List α) (es : List Equation) :
    (es.filterMap Equation.surface?).flatMap f =
      es.flatMap fun e => e.mesh?.toList.flatMap fun m => f ⟨e.id, e.expression, e.color, m⟩ := by
  induction es with
  | nil => rfl
  | cons e es ih =>
    rw [List.flatMap_cons, ← ih]
    cases hm : e.mesh? with
    | none => rw [List.filterMap_cons_none (by rw [Equation.surface?, hm]; rfl)]; rfl
    | some m =>
      rw [List.filterMap_cons_some (by rw [Equation.surface?, hm]; rfl), List.flatMap_cons,
        Option.toList_some, List.flatMap_singleton]

theorem forall₂_flatMap {r : β → γ → Prop} {f : α → List β} {g : α → List γ}
    (h : ∀ a, List.Forall₂ r (f a) (g a)) (as : List α) :
    List.Forall₂ r (as.flatMap f) (as.flatMap g) := by
  induction as with
  | nil => exact .nil
  | cons a as ih => exact List.rel_append (h a) ih

structure FiniteVec (v : Vec3 Float) : Prop where
  x : v.x.isFinite = true
  y : v.y.isFinite = true
  z : v.z.isFinite = true

/-- An equation drawn over one cell of a grid. -/
def cellEquation (expression : String) (a b c d : Float) : Equation where
  id := 1
  expression := expression
  color := "#6366f1"
  visible := true
  evaluator? := none
  mesh? := some ⟨1, #[⟨0, 0, a⟩, ⟨0, 1, b⟩, ⟨1, 0, c⟩, ⟨1, 1, d⟩], #[true, true, true, true], a, d⟩
  sampledDomain? := none
  rejection := none

end Relief.Format
