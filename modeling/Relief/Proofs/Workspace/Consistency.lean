import Relief.Proofs.Workspace.Change

/-!
What holds of every workspace that operations can lead to: ids are given out in order and never twice,
drawings are whole, and a rejection is that of the current text.
-/
namespace Relief

namespace Equation

/-- Either all parts of a drawing are there, and they fit together, or none is. -/
def Whole (e : Equation) : Prop :=
  (e.evaluator? = none ∧ e.mesh? = none ∧ e.sampledDomain? = none) ∨
  ∃ f m d, e.evaluator? = some f ∧ e.mesh? = some m ∧ e.sampledDomain? = some d ∧
    Mesh.ofEvaluator f d = .ok m

structure Sound (e : Equation) : Prop where
  whole : e.Whole
  blank : e.isBlank = true → e.evaluator? = none ∧ e.mesh? = none ∧ e.rejection = none
  rejected : ∀ r, e.rejection = some r → Evaluator.compile e.expression = .error (.rejected r)

variable {e e' : Equation} {d : Domain Float}

/-- Drawing an equation again mends whatever was wrong but a drawing in parts. -/
theorem Whole.redraw (h : e.Whole) (hr : e.redraw d = .ok e') : e'.Sound := by
  obtain ⟨hb, rfl⟩ | ⟨hb, r, hc, rfl⟩ | ⟨hb, f, m, hc, hm, rfl⟩ := redraw_cases hr
  · exact ⟨.inl ⟨rfl, rfl, rfl⟩, fun _ => ⟨rfl, rfl, rfl⟩, nofun⟩
  · refine ⟨h, fun hb' => ?_, fun r' hr' => ?_⟩
    · exact absurd (hb'.symm.trans hb) (by decide)
    · rw [← Option.some.inj hr']
      exact hc
  · refine ⟨.inr ⟨f, m, d, rfl, rfl, rfl, hm⟩, fun hb' => ?_, nofun⟩
    exact absurd (hb'.symm.trans hb) (by decide)

theorem Sound.refresh (h : e.Sound) (hr : e.refresh d = .ok e') : e'.Sound := by
  rw [Equation.refresh] at hr
  split at hr
  · exact h.whole.redraw hr
  · rwa [← Except.ok.inj hr]

theorem Sound.toggled (h : e.Sound) (hr : e.toggled d = .ok e') : e'.Sound := by
  have hs : ({ e with visible := !e.visible } : Equation).Sound := ⟨h.whole, h.blank, h.rejected⟩
  simp only [Equation.toggled] at hr
  split at hr
  · exact hs.whole.redraw hr
  · rwa [← Except.ok.inj hr]

theorem sound_undrawn (id : Nat) (expression color : String) (visible : Bool) :
    (Workspace.undrawn id expression color visible).Sound :=
  ⟨.inl ⟨rfl, rfl, rfl⟩, fun _ => ⟨rfl, rfl, rfl⟩, nofun⟩

end Equation

namespace Workspace

variable {w w' w'' : Workspace}

theorem mem_replace {e o : Equation} (h : o ∈ (w.replace e).equations) :
    o = e ∨ o ∈ w.equations := by
  obtain ⟨o', ho, he⟩ := List.mem_map.1 h
  split at he
  · exact .inl he.symm
  · exact .inr (he ▸ ho)

theorem forall₂_mem {α β : Type} {R : α → β → Prop} {as : List α} {bs : List β}
    (h : List.Forall₂ R as bs) {b : β} (hb : b ∈ bs) : ∃ a ∈ as, R a b := by
  induction h with
  | nil => cases hb
  | cons hab _ ih =>
    obtain rfl | hb := List.mem_cons.1 hb
    · exact ⟨_, List.mem_cons_self, hab⟩
    · obtain ⟨a, ha, hr⟩ := ih hb
      exact ⟨a, List.mem_cons_of_mem _ ha, hr⟩

theorem forall₂_ids {d : Domain Float} {es es' : List Equation}
    (h : List.Forall₂ (fun e e' => e.refresh d = .ok e') es es') :
    es'.map (·.id) = es.map (·.id) := by
  induction h with
  | nil => rfl
  | cons he _ ih => rw [List.map_cons, List.map_cons, ih, Equation.refresh_id he]

theorem added_id {e : Equation} {expression color : String} {visible : Bool}
    (h : (if visible then (undrawn w.nextId expression color visible).redraw w.domain
      else .ok (undrawn w.nextId expression color visible)) = .ok e) : e.id = w.nextId := by
  split at h
  · have hid := Equation.redraw_id h
    exact hid
  · rw [← Except.ok.inj h]
    rfl

/-- Every change keeps the order of the ids. -/
theorem Ordered.change (hw : Ordered w) (h : Change w w') : Ordered w' := by
  cases h with
  | same => exact hw
  | added expression color visible he => exact hw.appended (added_id he)
  | redrawn text hm hr => exact hw.of_ids (replace_ids _ _) (Nat.le_refl _)
  | toggled hm hr => exact hw.of_ids (replace_ids _ _) (Nat.le_refl _)
  | refreshed d hes => exact hw.of_ids (forall₂_ids hes) (Nat.le_refl _)
  | recolored mode => exact hw.of_ids rfl (Nat.le_refl _)
  | deleted hm =>
    exact ⟨hw.increasing.filter _, fun e he => hw.fresh e (List.mem_of_mem_filter he)⟩

structure Consistent (w : Workspace) : Prop where
  ordered : Ordered w
  sound : ∀ e ∈ w.equations, e.Sound

theorem consistent_empty (d : Domain Float) (mode : Color.Mode) : Consistent (empty d mode) :=
  ⟨⟨.nil, fun _ he => absurd he List.not_mem_nil⟩, fun _ he => absurd he List.not_mem_nil⟩

/-- Every change keeps a workspace consistent. -/
theorem Consistent.change (hw : Consistent w) (h : Change w w') : Consistent w' := by
  refine ⟨hw.ordered.change h, fun o ho => ?_⟩
  cases h with
  | same => exact hw.sound o ho
  | added expression color visible he =>
    obtain ho | ho := List.mem_append.1 ho
    · exact hw.sound o ho
    · obtain rfl := List.mem_singleton.1 ho
      have hs := Equation.sound_undrawn w.nextId expression color visible
      split at he
      · exact hs.whole.redraw he
      · rwa [← Except.ok.inj he]
  | redrawn text hm hr =>
    obtain rfl | ho := mem_replace ho
    · have hs := (hw.sound _ hm).whole
      exact Equation.Whole.redraw (by exact hs) hr
    · exact hw.sound o ho
  | toggled hm hr =>
    obtain rfl | ho := mem_replace ho
    · exact (hw.sound _ hm).toggled hr
    · exact hw.sound o ho
  | refreshed d hes =>
    obtain ⟨e, he, hr⟩ := forall₂_mem hes ho
    exact (hw.sound e he).refresh hr
  | recolored mode => exact hw.sound o ho
  | deleted hm => exact hw.sound o (List.mem_of_mem_filter ho)

/-! ### Runs -/

/-- From one workspace to another by operations none of which crashes. -/
inductive Leads (w : Workspace) : Workspace → Prop where
  | refl : Leads w w
  | step {w' : Workspace} (op : Operation) : Leads w w' → Passes (perform op.action w').1 →
    Leads w (perform op.action w').2

/-- What operations can make of an empty workspace. -/
def Reachable (w : Workspace) : Prop := ∃ d mode, Leads (empty d mode) w

theorem Consistent.leads (hw : Consistent w) (h : Leads w w') : Consistent w' := by
  induction h with
  | refl => exact hw
  | step op _ hp ih => exact ih.change (op.change ih.ordered hp)

theorem Reachable.consistent (h : Reachable w) : Consistent w := by
  obtain ⟨d, mode, hl⟩ := h
  exact (consistent_empty d mode).leads hl

/-- An id that was given out and is not that of an equation. -/
structure Retired (id : Nat) (w : Workspace) : Prop where
  given : id < w.nextId
  gone : ∀ e ∈ w.equations, e.id ≠ id

theorem Retired.of_ids {id : Nat} (hr : Retired id w)
    (h : w'.equations.map (·.id) = w.equations.map (·.id)) (hn : w'.nextId = w.nextId) :
    Retired id w' := by
  refine ⟨hn ▸ hr.given, fun e he => ?_⟩
  have hm : e.id ∈ w'.equations.map (·.id) := List.mem_map_of_mem he
  rw [h, List.mem_map] at hm
  obtain ⟨o, ho, hid⟩ := hm
  exact hid ▸ hr.gone o ho

/-- No change brings an id back. -/
theorem Retired.change {id : Nat} (hr : Retired id w) (h : Change w w') : Retired id w' := by
  cases h with
  | same => exact hr
  | added expression color visible he =>
    refine ⟨Nat.lt_succ_of_lt hr.given, fun o ho => ?_⟩
    obtain ho | ho := List.mem_append.1 ho
    · exact hr.gone o ho
    · rw [List.mem_singleton.1 ho, added_id he]
      exact (Nat.ne_of_lt hr.given).symm
  | redrawn text hm _ => exact hr.of_ids (replace_ids _ _) rfl
  | toggled hm _ => exact hr.of_ids (replace_ids _ _) rfl
  | refreshed d hes => exact hr.of_ids (forall₂_ids hes) rfl
  | recolored mode => exact hr.of_ids rfl rfl
  | deleted hm => exact ⟨hr.given, fun o ho => hr.gone o (List.mem_of_mem_filter ho)⟩

theorem Retired.leads {id : Nat} (hw : Consistent w) (hr : Retired id w) (h : Leads w w') :
    Retired id w' := by
  induction h with
  | refl => exact hr
  | step op hl hp ih => exact ih.change (op.change (hw.leads hl).ordered hp)

theorem Retired.find?_eq_none {id : Nat} (hr : Retired id w) : w.find? id = none := by
  refine List.find?_eq_none.2 fun e he => ?_
  rw [beq_iff_eq]
  exact_mod_cast hr.gone e he

/-- A deletion that succeeds is of an equation that is there, and it is not there afterwards. -/
theorem delete_eq_ok (hw : Consistent w) {id : Int} (h : perform (delete id) w = (.ok (), w')) :
    ∃ n : Nat, id = n ∧ Consistent w' ∧ Retired n w' := by
  have hc := hw.change (change_delete (w := w) id)
  rw [h] at hc
  rw [delete, perform_bind, perform_get] at h
  cases hf : w.find? id with
  | none =>
    rw [hf] at h
    cases h
  | some e =>
    rw [hf] at h
    obtain ⟨hm, hid⟩ := mem_of_find? hf
    refine ⟨e.id, hid.symm, hc, ?_⟩
    obtain rfl := (Prod.mk.inj h).2
    refine ⟨hw.ordered.fresh e hm, fun o ho => ?_⟩
    simpa using (List.mem_filter.1 ho).2

/-- Every reachable workspace keeps its equations in the order of their ids, each to be found under its
own id, which is below the next one. A deleted id stays unknown whatever is done afterwards. Of a
drawing all parts are there or none, and the surface is that of its formula over its domain; a blank
text has no drawing and no rejection; a rejection is what the compiler says of the current text. -/
theorem reachable_consistent (h : Reachable w) :
    w.equations.Pairwise (fun e e' => e.id < e'.id) ∧
    (∀ e ∈ w.equations, w.find? e.id = some e ∧ e.id < w.nextId) ∧
    (∀ id w₁ w₂, perform (delete id) w = (.ok (), w₁) → Leads w₁ w₂ → w₂.find? id = none) ∧
    ∀ e ∈ w.equations,
      ((e.evaluator? = none ∧ e.mesh? = none ∧ e.sampledDomain? = none) ∨
        ∃ f m d, e.evaluator? = some f ∧ e.mesh? = some m ∧ e.sampledDomain? = some d ∧
          Mesh.ofEvaluator f d = .ok m) ∧
      (e.isBlank = true → e.evaluator? = none ∧ e.mesh? = none ∧ e.rejection = none) ∧
      ∀ r, e.rejection = some r → Evaluator.compile e.expression = .error (.rejected r) := by
  have hw := h.consistent
  refine ⟨hw.ordered.increasing, fun e he => ⟨hw.ordered.find?_eq_some he, hw.ordered.fresh e he⟩,
    fun id w₁ w₂ hd hl => ?_, fun e he => ?_⟩
  · obtain ⟨n, rfl, hc, hr⟩ := delete_eq_ok hw hd
    exact (hr.leads hc hl).find?_eq_none
  · have hs := hw.sound e he
    exact ⟨hs.whole, hs.blank, hs.rejected⟩

theorem deleted_blank_unknown :
    (perform (delete 1) (perform (Operation.add "" none true).action
      (empty .standard .solid)).2).2.find? 1 = none :=
  (reachable_consistent ⟨.standard, .solid, .step (.add "" none true) .refl trivial⟩).2.2.1 1 _ _
    rfl .refl

end Workspace

end Relief
