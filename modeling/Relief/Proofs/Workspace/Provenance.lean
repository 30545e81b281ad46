import Mathlib
import Relief.Format.Plain
import Relief.Proofs.Format.Drawn
import Relief.Proofs.Workspace.Answer

/-!
Where a surface comes from: it was drawn from a text that its equation had, over the domain of that time,
and has stayed as it was through every operation since. It is that of the current text unless the text is
refused.
-/
namespace Relief

namespace Equation

variable {e e' e'' : Equation} {d : Domain Float}

/-- What is drawn of an equation is all of what is drawn of another state of it. -/
structure SameDrawing (e e' : Equation) : Prop where
  id : e'.id = e.id
  evaluator : e'.evaluator? = e.evaluator?
  mesh : e'.mesh? = e.mesh?
  sampledDomain : e'.sampledDomain? = e.sampledDomain?

/-- The surface of a formula over a domain is drawn, and the formula is that of the text. -/
structure Fresh (e : Equation) (d : Domain Float) (f : Evaluator) (m : Mesh Float) : Prop where
  compiles : Evaluator.compile e.expression = .ok f
  samples : Mesh.ofEvaluator f d = .ok m
  evaluator : e.evaluator? = some f
  mesh : e.mesh? = some m
  sampledDomain : e.sampledDomain? = some d

/-- How an equation comes to be drawn as it is: it has no surface, it is drawn now, or it is drawn as one
of the earlier equations was. -/
inductive Origin (es : List Equation) (d : Domain Float) (e' : Equation) : Prop where
  | nothing : e'.mesh? = none → Origin es d e'
  | fresh (f : Evaluator) (m : Mesh Float) : e'.Fresh d f m → Origin es d e'
  | kept {e : Equation} : e ∈ es → e.SameDrawing e' → Origin es d e'

theorem SameDrawing.refl (e : Equation) : e.SameDrawing e := ⟨rfl, rfl, rfl, rfl⟩

theorem SameDrawing.trans (h : e.SameDrawing e') (h' : e'.SameDrawing e'') : e.SameDrawing e'' where
  id := h'.id.trans h.id
  evaluator := h'.evaluator.trans h.evaluator
  mesh := h'.mesh.trans h.mesh
  sampledDomain := h'.sampledDomain.trans h.sampledDomain

variable {es : List Equation}

/-- What is not drawn may differ. -/
theorem Origin.of_sameDrawing (hm : e ∈ es) (hs : e.SameDrawing e') (h : Origin [e'] d e'') :
    Origin es d e'' := by
  cases h with
  | nothing hn => exact .nothing hn
  | fresh f m hf => exact .fresh f m hf
  | kept hm' hk =>
    obtain rfl := List.mem_singleton.1 hm'
    exact .kept hm (hs.trans hk)

theorem origin_redraw (hr : e.redraw d = .ok e') : Origin [e] d e' := by
  obtain ⟨-, rfl⟩ | ⟨-, r, -, rfl⟩ | ⟨-, f, m, hc, hm, rfl⟩ := redraw_cases hr
  · exact .nothing rfl
  · exact .kept (List.mem_singleton_self e) ⟨rfl, rfl, rfl, rfl⟩
  · exact .fresh f m ⟨hc, hm, rfl, rfl, rfl⟩

theorem origin_refresh (hm : e ∈ es) (hr : e.refresh d = .ok e') : Origin es d e' := by
  rw [refresh] at hr
  by_cases hs : e.isShown = true
  · rw [if_pos hs] at hr
    exact .of_sameDrawing hm (.refl e) (origin_redraw hr)
  · rw [if_neg hs] at hr
    obtain rfl := Except.ok.inj hr
    exact .kept hm (.refl e)

theorem origin_toggled (hm : e ∈ es) (hr : e.toggled d = .ok e') : Origin es d e' := by
  have hs : e.SameDrawing { e with visible := !e.visible } := ⟨rfl, rfl, rfl, rfl⟩
  simp only [toggled] at hr
  split at hr
  · exact .of_sameDrawing hm hs (origin_redraw hr)
  · obtain rfl := Except.ok.inj hr
    exact .kept hm hs

end Equation

namespace Workspace

variable {w w' : Workspace} {e e' : Equation}

theorem origin_added {expression color : String} {visible : Bool}
    (h : (if visible then (undrawn w.nextId expression color visible).redraw w.domain
      else .ok (undrawn w.nextId expression color visible)) = .ok e) :
    Equation.Origin w.equations w.domain e := by
  by_cases hv : visible = true
  · rw [if_pos hv] at h
    cases Equation.origin_redraw h with
    | nothing hn => exact .nothing hn
    | fresh f m hf => exact .fresh f m hf
    | kept hm hk =>
      obtain rfl := List.mem_singleton.1 hm
      exact .nothing hk.mesh
  · rw [if_neg hv] at h
    obtain rfl := Except.ok.inj h
    exact .nothing rfl

/-- A change draws an equation, leaves it without a surface, or leaves what is drawn of it as it was.
There is no fourth way, so no equation gets the surface of another. -/
theorem Change.origin (h : Change w w') (he : e ∈ w'.equations) :
    Equation.Origin w.equations w'.domain e := by
  cases h with
  | same => exact .kept he (.refl e)
  | added expression color visible hd =>
    obtain he | he := List.mem_append.1 he
    · exact .kept he (.refl e)
    · obtain rfl := List.mem_singleton.1 he
      exact origin_added hd
  | @redrawn o _ text hm hr =>
    obtain rfl | he := mem_replace he
    · have hs : o.SameDrawing { o with expression := text } := ⟨rfl, rfl, rfl, rfl⟩
      exact .of_sameDrawing hm hs (Equation.origin_redraw hr)
    · exact .kept he (.refl e)
  | toggled hm hr =>
    obtain rfl | he := mem_replace he
    · exact Equation.origin_toggled hm hr
    · exact .kept he (.refl e)
  | refreshed d hes =>
    obtain ⟨o, hm, hr⟩ := forall₂_mem hes he
    exact Equation.origin_refresh hm hr
  | recolored mode => exact .kept he (.refl e)
  | deleted _ => exact .kept (List.mem_of_mem_filter he) (.refl e)

/-- From one workspace to another by operations none of which crashes or changes what is drawn of the
equation with an id. -/
inductive Keeps (id : Nat) (w : Workspace) : Workspace → Prop where
  | refl : Keeps id w w
  | step {w' : Workspace} {e e' : Equation} (op : Operation) : Keeps id w w' →
    Passes (perform op.action w').1 → e ∈ w'.equations → e.id = id →
    e' ∈ (perform op.action w').2.equations → e.SameDrawing e' →
    Keeps id w (perform op.action w').2

/-- Where the surface of an equation comes from: it was drawn in a reachable workspace from the text that
the equation had there, over the domain of that workspace, and nothing has changed it since. -/
structure Provenance (w : Workspace) (e : Equation) (f : Evaluator) (m : Mesh Float)
    (w₀ : Workspace) (e₀ : Equation) : Prop where
  reachable : Reachable w₀
  mem : e₀ ∈ w₀.equations
  fresh : e₀.Fresh w₀.domain f m
  drawing : e₀.SameDrawing e
  keeps : Keeps e₀.id w₀ w

/-- What is drawn in a run from an empty workspace has a provenance, by induction on the run. -/
theorem Reachable.provenance (h : Reachable w) {m : Mesh Float} (he : e ∈ w.equations)
    (hm : e.mesh? = some m) : ∃ f w₀ e₀, Provenance w e f m w₀ e₀ := by
  obtain ⟨d, mode, hl⟩ := h
  induction hl generalizing e with
  | refl => cases he
  | @step w' op hl hp ih =>
    have hw' : Reachable w' := ⟨d, mode, hl⟩
    have hw : Reachable (perform op.action w').2 := ⟨d, mode, hl.step op hp⟩
    have hc := op.change hw'.consistent.ordered hp
    cases hc.origin he with
    | nothing hn =>
      rw [hn] at hm
      cases hm
    | fresh f m' hf =>
      obtain rfl : m' = m := Option.some.inj (hf.mesh.symm.trans hm)
      exact ⟨f, _, e, hw, he, hf, .refl e, .refl⟩
    | kept ho hs =>
      obtain ⟨f, w₀, e₀, hpr⟩ := ih ho (hs.mesh.symm.trans hm)
      have hk := hpr.keeps.step op hp ho hpr.drawing.id he hs
      exact ⟨f, w₀, e₀, hpr.reachable, hpr.mem, hpr.fresh, hpr.drawing.trans hs, hk⟩

/-- What is to be seen and not refused is the current text over the current domain. -/
theorem Reachable.fresh_of_drawn (h : Reachable w) (he : e ∈ w.drawn) (hn : e.rejection = none) :
    ∃ f m, e.evaluator? = some f ∧ e.mesh? = some m ∧
      Evaluator.compile e.expression = .ok f ∧ Mesh.ofEvaluator f w.domain = .ok m := by
  obtain ⟨hm, hv⟩ := List.mem_filter.1 he
  obtain ⟨hv, hd⟩ := Bool.and_eq_true_iff.1 hv
  have hs := h.consistent.sound e hm
  have hb : e.isBlank = false := by
    by_contra hb
    rw [(hs.blank (Bool.eq_true_of_not_eq_false hb)).2.1] at hd
    cases hd
  have hshown : e.isShown = true := by simp [Equation.isShown, hv, hb]
  obtain ⟨f, m, -, hc, ho, hf, hm, -⟩ := (h.settled e hm).drawn hs hshown hn
  exact ⟨f, m, hf, hm, hc, ho⟩

/-- The rows of a table of one equation: one for each vertex of its surface, labelled with its text. -/
def rowsOf (e : Equation) : List String :=
  (e.mesh?.toList.flatMap fun m => m.vertices.toList).map
    (Format.csvRow (String.ofList (Format.quoteField e.expression)))

theorem surfaces_eq_nil (h : w.drawn = []) : w.surfaces = [] := by
  rw [surfaces, h, List.filterMap_nil]

theorem csv_surfaces (h : w.drawn ≠ []) : Format.csv w.surfaces =
    .ok (Format.ofLines (Format.csvHeader :: w.drawn.flatMap rowsOf)) := by
  obtain ⟨e, he⟩ := List.exists_mem_of_ne_nil _ h
  obtain ⟨-, hv⟩ := List.mem_filter.1 he
  have hne : w.surfaces ≠ [] :=
    Format.surfaces_ne_nil ⟨e, he, (Bool.and_eq_true_iff.1 hv).2⟩
  have hrows : w.surfaces.flatMap Format.csvRows = w.drawn.flatMap rowsOf := by
    rw [surfaces, Format.flatMap_surfaces]
    apply List.flatMap_congr
    intro e _
    cases hm : e.mesh? <;> simp [rowsOf, hm, Format.csvRows]
  rw [Format.csv, Format.require_eq_ok hne, ← hrows]
  rfl

/-- In every reachable workspace the table of what is drawn has, for each visible equation with a surface
and in their order, a row for each vertex of that surface, labelled with the current text; without such
an equation there is no table. If the text is not refused, the surface is the sample of the formula that
it is compiled to, over the current domain. If it is refused, as the compiler refuses it, the surface is
the one kept from before: the sample of the formula of a text that the equation had when it was last
drawn, over the domain of that time, and nothing has changed it since. -/
theorem csv_provenance (h : Reachable w) :
    (w.drawn = [] → Format.csv w.surfaces = .error .nothing) ∧
    (w.drawn ≠ [] → Format.csv w.surfaces =
      .ok (Format.ofLines (Format.csvHeader :: w.drawn.flatMap rowsOf))) ∧
    ∀ e ∈ w.drawn, ∃ f m, e.evaluator? = some f ∧ e.mesh? = some m ∧
      (e.rejection = none → Evaluator.compile e.expression = .ok f ∧
        Mesh.ofEvaluator f w.domain = .ok m) ∧
      ∀ r, e.rejection = some r → Evaluator.compile e.expression = .error (.rejected r) ∧
        ∃ w₀ e₀, Provenance w e f m w₀ e₀ := by
  refine ⟨fun hn => ?_, csv_surfaces, fun e he => ?_⟩
  · rw [surfaces_eq_nil hn]
    rfl
  · have hm := List.mem_of_mem_filter he
    cases hr : e.rejection with
    | none =>
      obtain ⟨f, m, hf, hm, hc, ho⟩ := h.fresh_of_drawn he hr
      exact ⟨f, m, hf, hm, fun _ => ⟨hc, ho⟩, nofun⟩
    | some r =>
      obtain ⟨-, hv⟩ := List.mem_filter.1 he
      obtain ⟨m, hmesh⟩ := Option.isSome_iff_exists.1 (Bool.and_eq_true_iff.1 hv).2
      obtain ⟨f, w₀, e₀, hp⟩ := h.provenance hm hmesh
      refine ⟨f, m, hp.drawing.evaluator.trans hp.fresh.evaluator, hmesh, nofun, fun r' hr' => ?_⟩
      obtain rfl := Option.some.inj hr'
      exact ⟨(h.consistent.sound e hm).rejected r hr, w₀, e₀, hp⟩

/-- A variable that is drawn and then turned into a sum without a second term stays drawn. -/
theorem exists_drawn_refused : ∃ w e r, Reachable w ∧ e ∈ w.drawn ∧ e.expression = "x+" ∧
    e.rejection = some r := by
  obtain ⟨f, hf⟩ := Evaluator.compile_variable
  obtain ⟨r, hr⟩ := Evaluator.compile_sum
  have hempty : Reachable (empty .standard .solid) := ⟨_, _, .refl⟩
  obtain ⟨m, hdrawn⟩ := hempty.drawn (by decide) hf "#6366f1"
  have hfind := hdrawn.consistent.ordered.find?_eq_some (List.mem_singleton_self _)
  have hrefused := hdrawn.rejected hfind (by decide) hr
  let e : Equation := (undrawn 1 "x" "#6366f1" true).install f m .standard
  refine ⟨_, { e with expression := "x+", rejection := some r }, r, hrefused, ?_, rfl, rfl⟩
  exact List.mem_singleton_self _

theorem csv_provenance_sum : ∃ w e r, Reachable w ∧ e ∈ w.drawn ∧ e.expression = "x+" ∧
    e.rejection = some r ∧ ∃ f m w₀ e₀, e.mesh? = some m ∧ Provenance w e f m w₀ e₀ := by
  obtain ⟨w, e, r, hw, he, hx, hr⟩ := exists_drawn_refused
  obtain ⟨f, m, -, hm, -, hrefused⟩ := (csv_provenance hw).2.2 e he
  obtain ⟨-, w₀, e₀, hp⟩ := hrefused r hr
  exact ⟨w, e, r, hw, he, hx, hr, f, m, w₀, e₀, hm, hp⟩

/-- Not all that is drawn is the sample of the current text. -/
theorem drawn_not_current : ¬ ∀ w, Reachable w → ∀ e ∈ w.drawn,
    ∃ f m, Evaluator.compile e.expression = .ok f ∧ Mesh.ofEvaluator f w.domain = .ok m ∧
      e.mesh? = some m := by
  intro h
  obtain ⟨w, e, r, hw, he, hx, -⟩ := exists_drawn_refused
  obtain ⟨f, m, hf, -⟩ := h w hw e he
  obtain ⟨r, hr⟩ := Evaluator.compile_sum
  rw [hx, hr] at hf
  cases hf

end Workspace

end Relief
