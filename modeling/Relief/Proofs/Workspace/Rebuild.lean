import Relief.Format.Plain
import Relief.Proofs.Workspace.Freshness
import Relief.Workspace.Spec

/-!
A workspace that is made again from its own document shows the same surfaces, whatever was done to the
first one.
-/
namespace Relief

namespace Format

/-- Surfaces that tables and solids do not tell apart. -/
structure Surface.Alike (s s' : Surface) : Prop where
  expression : s.expression = s'.expression
  mesh : s.mesh = s'.mesh

variable {ss ss' : List Surface}

end Format

open Relief.Format

/-- An equation made again looks like the first one, as far as that is to be seen. -/
structure Equation.Redone (e e' : Equation) : Prop where
  expression : e'.expression = e.expression
  visible : e'.visible = e.visible
  mesh : e.visible = true → e'.mesh? = e.mesh?

/-- What a document says of an equation with a color that documents may have. -/
def Equation.spec (e : Equation) : EquationSpec :=
  ⟨e.expression, some e.color.toLower, e.visible⟩

namespace Workspace

variable {w : Workspace}

theorem specOfEquation_eq {e : Equation} (h : Color.isHexText e.color = true) :
    specOfEquation e = .ok e.spec := by
  simp [specOfEquation, Schema.equationOfEntries, Schema.field, Schema.isNamed, Schema.under,
    Schema.readText, Schema.readColor, Schema.readColorText, Schema.readBool, Schema.readWords,
    Schema.issuesOf, Schema.unknownFields, Schema.equationFields, Except.bind, Except.map, h,
    Equation.spec]

theorem toSpec_eq (h : ∀ e ∈ w.equations, Color.isHexText e.color = true) :
    w.toSpec = .ok ⟨Schema.standardVersion, w.colorMode, w.domain, w.equations.map Equation.spec⟩ := by
  have hm : ∀ es : List Equation, (∀ e ∈ es, Color.isHexText e.color = true) →
      es.mapM specOfEquation = .ok (es.map Equation.spec) := by
    intro es hes
    induction es with
    | nil => rfl
    | cons e es ih =>
      rw [List.mapM_cons, specOfEquation_eq (hes e List.mem_cons_self),
        ih fun o ho => hes o (List.mem_cons_of_mem e ho)]
      rfl
  rw [toSpec, hm _ h]
  rfl

/-- An equation made again under an id from what a document says of it, as far as it is to be drawn. -/
def remake (e : Equation) (id : Nat) (d : Domain Float) : Except Crash Equation :=
  let new := undrawn id e.expression e.color.toLower e.visible
  if e.visible then new.redraw d else .ok new

/-- A settled equation can be made again under any id, if its text is not refused. -/
theorem redone {e : Equation} {d : Domain Float} (h : e.Settled d) (hs : e.Sound)
    (hn : e.visible = true → e.rejection = none) (id : Nat) :
    ∃ e', remake e id d = .ok e' ∧ e.Redone e' := by
  rw [remake]
  by_cases hv : e.visible = true
  · rw [if_pos hv]
    cases hb : e.isBlank with
    | true =>
      have hb' : (undrawn id e.expression e.color.toLower e.visible).isBlank = true := hb
      refine ⟨_, Equation.redraw_of_blank hb', rfl, rfl, fun _ => ?_⟩
      exact (hs.blank hb).2.1.symm
    | false =>
      have hb' : (undrawn id e.expression e.color.toLower e.visible).isBlank = false := hb
      have hshown : e.isShown = true := by simp [Equation.isShown, hv, hb]
      obtain ⟨f, m, d', hf, ho, -, hm, -⟩ := h.drawn hs hshown (hn hv)
      exact ⟨_, Equation.redraw_of_sample hb' hf ho, rfl, rfl, fun _ => hm.symm⟩
  · rw [if_neg hv]
    exact ⟨_, rfl, rfl, rfl, fun hv' => absurd hv' hv⟩

theorem perform_add_ok {v : Workspace} (hv : Ordered v) {expression color : String} {visible : Bool}
    {e : Equation} (he : (if visible then (undrawn v.nextId expression color visible).redraw v.domain
      else .ok (undrawn v.nextId expression color visible)) = .ok e) :
    perform (add expression (some color) visible) v = (.ok e, v.appended e) := by
  rw [perform_add hv]
  dsimp only [Option.getD_some]
  rw [he]

/-- Adding the equations of a document one by one makes all of them again, with what each of them keeps
when it is made again. -/
theorem perform_adds {R : Equation → Equation → Prop} {v : Workspace} (hv : Ordered v)
    (es : List Equation)
    (h : ∀ e ∈ es, ∀ id, ∃ e', remake e id v.domain = .ok e' ∧ R e e') :
    ∃ es' w', perform ((es.map Equation.spec).forM fun s =>
        discard (add s.expression s.color s.visible)) v = (.ok (), w') ∧
      w'.domain = v.domain ∧ w'.equations = v.equations ++ es' ∧ List.Forall₂ R es es' := by
  induction es generalizing v with
  | nil => exact ⟨[], v, rfl, rfl, by simp, .nil⟩
  | cons e es ih =>
    obtain ⟨e', he, hr⟩ := h e List.mem_cons_self v.nextId
    have hid := added_id he
    have ho := hv.appended hid
    obtain ⟨es', w', hp, hd, hw, hf⟩ := ih ho fun o hm => h o (List.mem_cons_of_mem e hm)
    refine ⟨e' :: es', w', ?_, hd, ?_, .cons hr hf⟩
    · have ha : perform (add e.spec.expression e.spec.color e.spec.visible) v =
          (.ok e', v.appended e') := perform_add_ok hv he
      rw [List.map_cons, List.forM, perform_bind, perform_discard, ha]
      exact hp
    · rw [hw, appended, List.append_assoc]
      rfl

end Workspace

end Relief
