import Mathlib.Data.List.Forall2
import Relief.Workspace

/-!
What the operations of a workspace do to it, said once: every operation that does not crash makes one
of a few changes, with equations drawn again by `redraw` alone.
-/
namespace Relief

/-! ### One equation -/

namespace Equation

variable {e e' : Equation} {d : Domain Float}

theorem sample_eq_ok_iff {f : Evaluator} {m : Mesh Float} :
    Mesh.sample f d = .ok m ↔ Mesh.ofEvaluator f d = .ok m := by
  rw [Mesh.sample]
  cases Mesh.ofEvaluator f d with
  | error e => exact ⟨nofun, nofun⟩
  | ok m' => exact ⟨fun h => congrArg _ (Except.ok.inj h), fun h => congrArg _ (Except.ok.inj h)⟩

/-- The three ways in which an equation is drawn again. -/
theorem redraw_cases (h : e.redraw d = .ok e') :
    (e.isBlank = true ∧ e' = { e.release with rejection := none }) ∨
    (e.isBlank = false ∧ ∃ r, Evaluator.compile e.expression = .error (.rejected r) ∧
      e' = { e with rejection := some r }) ∨
    (e.isBlank = false ∧ ∃ f m, Evaluator.compile e.expression = .ok f ∧
      Mesh.ofEvaluator f d = .ok m ∧ e' = e.install f m d) := by
  rw [redraw] at h
  split at h
  · next hb => exact .inl ⟨hb, (Except.ok.inj h).symm⟩
  · next hb =>
    have hb := Bool.eq_false_iff.2 hb
    split at h
    · next r hr => exact .inr (.inl ⟨hb, r, hr, (Except.ok.inj h).symm⟩)
    · cases h
    · next f hf =>
      cases hm : Mesh.sample f d with
      | error c =>
        rw [hm] at h
        cases h
      | ok m =>
        rw [hm] at h
        exact .inr (.inr ⟨hb, f, m, hf, sample_eq_ok_iff.1 hm, (Except.ok.inj h).symm⟩)

theorem redraw_of_sample {f : Evaluator} {m : Mesh Float} (hb : e.isBlank = false)
    (hf : Evaluator.compile e.expression = .ok f) (hm : Mesh.ofEvaluator f d = .ok m) :
    e.redraw d = .ok (e.install f m d) := by
  have hm := sample_eq_ok_iff.2 hm
  simp [redraw, hb, hf, hm, Except.map]

theorem redraw_of_rejected {r : Rejection} (hb : e.isBlank = false)
    (hr : Evaluator.compile e.expression = .error (.rejected r)) :
    e.redraw d = .ok { e with rejection := some r } := by
  simp [redraw, hb, hr]

theorem redraw_of_blank (hb : e.isBlank = true) :
    e.redraw d = .ok { e.release with rejection := none } := by
  simp [redraw, hb]

/-- Drawing changes only what is drawn and the rejection. -/
theorem redraw_frame (h : e.redraw d = .ok e') :
    e'.id = e.id ∧ e'.expression = e.expression ∧ e'.color = e.color ∧ e'.visible = e.visible := by
  obtain ⟨-, rfl⟩ | ⟨-, r, -, rfl⟩ | ⟨-, f, m, -, -, rfl⟩ := redraw_cases h <;>
    exact ⟨rfl, rfl, rfl, rfl⟩

theorem redraw_id (h : e.redraw d = .ok e') : e'.id = e.id := (redraw_frame h).1

/-- Drawn again if it is to be drawn with all others. -/
def refresh (e : Equation) (d : Domain Float) : Except Crash Equation :=
  if e.isShown then e.redraw d else .ok e

theorem refresh_id (h : e.refresh d = .ok e') : e'.id = e.id := by
  rw [refresh] at h
  split at h
  · exact redraw_id h
  · rw [Except.ok.inj h]

end Equation

/-! ### Operations -/

namespace Workspace

/-- What can be asked of a workspace, with the arguments. -/
inductive Operation where
  | add (expression : String) (color : Option String) (visible : Bool)
  | setExpression (id : Int) (text : String)
  | recompute (id : Int)
  | recomputeAll
  | toggle (id : Int)
  | setDomain (d : Domain Float)
  | setColorMode (name : String)
  | delete (id : Int)
  | measures (id : Int)
  | extrema (id : Int)
  | colors (id : Int)
  | evaluate (id : Int) (x y : Value)

/-- What is done for an operation. Results are left out. -/
def Operation.action : Operation → Action Unit
  | add expression color visible => discard (Workspace.add expression color visible)
  | setExpression id text => discard (Workspace.setExpression id text)
  | recompute id => discard (Workspace.recompute id)
  | recomputeAll => Workspace.recomputeAll
  | toggle id => discard (Workspace.toggle id)
  | setDomain d => Workspace.setDomain d
  | setColorMode name => Workspace.setColorMode name
  | delete id => Workspace.delete id
  | measures id => discard (Workspace.measures id)
  | extrema id => discard (Workspace.extrema id)
  | colors id => discard (Workspace.colors id)
  | evaluate id x y => discard (Workspace.evaluate id x y)

/-- How an action ends on a workspace, and what the workspace is then. -/
def perform {α : Type} (a : Action α) (w : Workspace) : Except Failure α × Workspace :=
  (ExceptT.run a).run w

/-- An outcome that is a result, or a refusal of what was asked. -/
def Passes {α : Type} : Except Failure α → Prop
  | .error (.crashed _) => False
  | _ => True

section Actions

variable {α β : Type} {w : Workspace}

@[simp]
theorem perform_pure (a : α) : perform (pure a) w = (.ok a, w) := rfl

@[simp]
theorem perform_throw (f : Failure) : perform (throw f : Action α) w = (.error f, w) := rfl

@[simp]
theorem perform_getThe : perform (getThe Workspace : Action Workspace) w = (.ok w, w) := rfl

@[simp]
theorem perform_modify (f : Workspace → Workspace) :
    perform (modify f : Action Unit) w = (.ok (), f w) := rfl

theorem perform_bind (a : Action α) (f : α → Action β) : perform (a >>= f) w =
    match perform a w with
    | (.ok x, w') => perform (f x) w'
    | (.error e, w') => (.error e, w') := by
  unfold perform ExceptT.run StateT.run
  simp only [bind, ExceptT.bind, ExceptT.mk, StateT.bind, ExceptT.bindCont]
  cases a w with
  | mk r w' => cases r <;> rfl

theorem perform_discard (a : Action α) : perform (discard a) w =
    ((perform a w).1.map fun _ => (), (perform a w).2) := by
  have h : perform (discard a) w = perform (a >>= fun _ => pure ()) w := rfl
  rw [h, perform_bind]
  cases perform a w with
  | mk r w' => cases r <;> rfl

theorem passes_map {f : α → β} {r : Except Failure α} : Passes (r.map f) ↔ Passes r := by
  cases r with
  | ok a => exact Iff.rfl
  | error e => cases e <;> exact Iff.rfl

theorem perform_get (id : Int) : perform (get id) w =
    match w.find? id with
    | some e => (.ok e, w)
    | none => (.error (.unknownEquation id), w) := by
  rw [get, perform_bind, perform_getThe]
  dsimp only
  cases w.find? id <;> rfl

theorem perform_recompute (id : Int) : perform (recompute id) w =
    match w.find? id with
    | none => (.error (.unknownEquation id), w)
    | some e =>
      match e.redraw w.domain with
      | .ok e' => (.ok e', w.replace e')
      | .error c => (.error (.crashed c), w) := by
  rw [recompute, perform_bind, perform_get]
  cases w.find? id with
  | none => rfl
  | some e =>
    simp only [perform_bind, perform_getThe]
    cases e.redraw w.domain with
    | error c => rfl
    | ok e' => rfl

end Actions

/-! ### Equations by their ids -/

/-- The equations stand in the order of their ids, and the next id is greater than all of them. -/
structure Ordered (w : Workspace) : Prop where
  increasing : w.equations.Pairwise fun e e' => e.id < e'.id
  fresh : ∀ e ∈ w.equations, e.id < w.nextId

section Ids

variable {w : Workspace} {e e' : Equation} {es : List Equation} {id : Int}

theorem mem_of_find? (h : w.find? id = some e) : e ∈ w.equations ∧ (e.id : Int) = id := by
  refine ⟨List.mem_of_find?_eq_some h, ?_⟩
  simpa using List.find?_some h

theorem Ordered.eq_of_id (hw : Ordered w) (h : e ∈ w.equations) (h' : e' ∈ w.equations)
    (hid : e.id = e'.id) : e = e' := by
  have h1 : w.equations.Pairwise fun a b => a.id = b.id → a = b :=
    hw.increasing.imp fun hlt heq => absurd heq (Nat.ne_of_lt hlt)
  have h2 : w.equations.Pairwise (flip fun a b => a.id = b.id → a = b) :=
    hw.increasing.imp fun hlt heq => absurd heq.symm (Nat.ne_of_lt hlt)
  exact List.Pairwise.forall_of_forall_of_flip (fun _ _ _ => rfl) h1 h2 h h' hid

theorem Ordered.find?_eq_some (hw : Ordered w) (h : e ∈ w.equations) :
    w.find? e.id = some e := by
  cases hf : w.find? e.id with
  | none => simpa using List.find?_eq_none.1 hf e h
  | some e' =>
    obtain ⟨hm, hid⟩ := mem_of_find? hf
    rw [hw.eq_of_id hm h (by exact_mod_cast hid)]

/-- Only the equation with the same id is replaced. -/
theorem Ordered.replace_eq (hw : Ordered w) (pre suf : List Equation)
    (h : w.equations = pre ++ e :: suf) (hid : e'.id = e.id) :
    w.replace e' = { w with equations := pre ++ e' :: suf } := by
  have hp := hw.increasing
  rw [h, List.pairwise_append, List.pairwise_cons] at hp
  obtain ⟨-, ⟨hsuf, -⟩, hpre⟩ := hp
  have h1 : pre.map (fun o => if o.id == e'.id then e' else o) = pre := by
    refine (List.map_congr_left fun o ho => ?_).trans (List.map_id pre)
    have := hpre o ho e List.mem_cons_self
    exact if_neg (by simp; omega)
  have h2 : suf.map (fun o => if o.id == e'.id then e' else o) = suf := by
    refine (List.map_congr_left fun o ho => ?_).trans (List.map_id suf)
    have := hsuf o ho
    exact if_neg (by simp; omega)
  rw [replace, h, List.map_append, List.map_cons, h1, h2, if_pos (by simp [hid])]

/-- Equations may be exchanged for others with the same ids. -/
theorem Ordered.of_ids (hw : Ordered w) {w' : Workspace}
    (h : w'.equations.map (·.id) = w.equations.map (·.id)) (hn : w.nextId ≤ w'.nextId) :
    Ordered w' := by
  constructor
  · have hi := hw.increasing
    rwa [← List.pairwise_map, ← h, List.pairwise_map] at hi
  · intro e he
    have hm : e.id ∈ w'.equations.map (·.id) := List.mem_map_of_mem he
    rw [h, List.mem_map] at hm
    obtain ⟨o, ho, hid⟩ := hm
    have := hw.fresh o ho
    omega

theorem replace_ids (w : Workspace) (e : Equation) :
    (w.replace e).equations.map (·.id) = w.equations.map (·.id) := by
  rw [replace, List.map_map]
  refine List.map_congr_left fun o _ => ?_
  by_cases h : o.id = e.id <;> simp [h]

end Ids

/-! ### Drawing all equations again -/

section Refreshing

variable {w : Workspace}

/-- The equations that are drawn with all others are drawn again, each of them alone. -/
theorem perform_refresh (hw : Ordered w) (pre suf : List Equation)
    (h : w.equations = pre ++ suf) :
    (∃ es, List.Forall₂ (fun e e' => e.refresh w.domain = .ok e') suf es ∧
      perform ((suf.filter Equation.isShown).forM fun e => discard (recompute e.id)) w =
        (.ok (), { w with equations := pre ++ es })) ∨
    ∃ e ∈ suf, ∃ c, e.refresh w.domain = .error c ∧ ∃ w',
      perform ((suf.filter Equation.isShown).forM fun e => discard (recompute e.id)) w =
        (.error (.crashed c), w') := by
  induction suf generalizing pre w with
  | nil => exact .inl ⟨[], .nil, by rw [← h]; rfl⟩
  | cons e suf ih =>
    by_cases hs : e.isShown = true
    · have hf : w.find? e.id = some e := hw.find?_eq_some (by simp [h])
      rw [List.filter_cons_of_pos hs, List.forM, perform_bind, perform_discard,
        perform_recompute, hf]
      cases hr : e.redraw w.domain with
      | error c =>
        refine .inr ⟨e, List.mem_cons_self, c, ?_, w, by simp [hr, Except.map]⟩
        simp [Equation.refresh, hs, hr]
      | ok e' =>
        have hid := Equation.redraw_id hr
        have hrep := hw.replace_eq pre suf h hid
        have hids := replace_ids w e'
        rw [hrep] at hids
        have ho := hw.of_ids hids (Nat.le_refl _)
        have hre : e.refresh w.domain = .ok e' := by simp [Equation.refresh, hs, hr]
        obtain ⟨es, hes, hp⟩ | ⟨o, hmem, c, ho, w', hp⟩ :=
          ih ho (pre ++ [e']) (by simp)
        · refine .inl ⟨e' :: es, .cons hre hes, ?_⟩
          simp only [hr, hrep, Except.map]
          rw [hp]
          simp
        · refine .inr ⟨o, List.mem_cons_of_mem _ hmem, c, ho, w', ?_⟩
          simp only [hr, hrep, Except.map]
          exact hp
    · have hre : e.refresh w.domain = .ok e := by simp [Equation.refresh, hs]
      rw [List.filter_cons_of_neg hs]
      obtain ⟨es, hes, hp⟩ | ⟨o, hmem, c, ho, w', hp⟩ := ih hw (pre ++ [e]) (by simp [h])
      · exact .inl ⟨e :: es, .cons hre hes, by simpa using hp⟩
      · exact .inr ⟨o, List.mem_cons_of_mem _ hmem, c, ho, w', hp⟩

theorem perform_recomputeAll (hw : Ordered w) :
    (∃ es, List.Forall₂ (fun e e' => e.refresh w.domain = .ok e') w.equations es ∧
      perform recomputeAll w = (.ok (), { w with equations := es })) ∨
    ∃ e ∈ w.equations, ∃ c, e.refresh w.domain = .error c ∧ ∃ w',
      perform recomputeAll w = (.error (.crashed c), w') :=
  perform_refresh hw [] w.equations rfl

end Refreshing

/-! ### Changes -/

/-- A new equation, before it is drawn. -/
def undrawn (id : Nat) (expression color : String) (visible : Bool) : Equation :=
  ⟨id, expression, color, visible, none, none, none, none⟩

/-- With a new equation behind all others. -/
def appended (w : Workspace) (e : Equation) : Workspace :=
  { w with equations := w.equations ++ [e], nextId := w.nextId + 1 }

end Workspace

/-- Hidden, or shown again and then drawn unless that is what is there already. -/
def Equation.toggled (e : Equation) (d : Domain Float) : Except Crash Equation :=
  let e := { e with visible := !e.visible }
  if e.isShown && !e.isDrawnOver d then e.redraw d else .ok e

namespace Workspace

/-- What an operation can do to a workspace. -/
inductive Change (w : Workspace) : Workspace → Prop where
  | same : Change w w
  | added (expression color : String) (visible : Bool) {e : Equation} :
    (if visible then (undrawn w.nextId expression color visible).redraw w.domain
      else .ok (undrawn w.nextId expression color visible)) = .ok e →
    Change w (w.appended e)
  | redrawn {e e' : Equation} (text : String) : e ∈ w.equations →
    ({ e with expression := text } : Equation).redraw w.domain = .ok e' → Change w (w.replace e')
  | toggled {e e' : Equation} : e ∈ w.equations → e.toggled w.domain = .ok e' →
    Change w (w.replace e')
  | refreshed (d : Domain Float) {es : List Equation} :
    List.Forall₂ (fun e e' => e.refresh d = .ok e') w.equations es →
    Change w { w with domain := d, equations := es }
  | recolored (mode : Color.Mode) : Change w { w with colorMode := mode }
  | deleted {e : Equation} : e ∈ w.equations →
    Change w { w with equations := w.equations.filter (·.id != e.id) }

section Inversion

variable {w : Workspace}

theorem replace_replace (w : Workspace) {e e' : Equation} (h : e'.id = e.id) :
    (w.replace e).replace e' = w.replace e' := by
  simp only [replace, List.map_map]
  congr 1
  refine List.map_congr_left fun o _ => ?_
  by_cases ho : o.id = e.id <;> simp [ho, h]

theorem find?_replace {e e₁ : Equation} {id : Int} (hf : w.find? id = some e)
    (h : e₁.id = e.id) : (w.replace e₁).find? id = some e₁ := by
  obtain ⟨-, hid⟩ := mem_of_find? hf
  simp only [find?, replace] at hf ⊢
  generalize w.equations = es at hf
  induction es with
  | nil => cases hf
  | cons o es ih =>
    rw [List.map_cons]
    by_cases ho : o.id = e.id
    · rw [if_pos (by simp [ho, h]), List.find?_cons_of_pos (by simp [h, hid])]
    · have hne : ¬ ((o.id : Int) == id) = true := by
        rw [← hid, beq_iff_eq]
        exact_mod_cast ho
      rw [if_neg (by simp [ho, h]), List.find?_cons_of_neg (by exact hne)]
      rw [List.find?_cons_of_neg (by exact hne)] at hf
      exact ih hf

@[simp]
theorem replace_domain (w : Workspace) (e : Equation) : (w.replace e).domain = w.domain := rfl

theorem perform_put (e : Equation) : perform (put e) w = (.ok (), w.replace e) := rfl

/-- An equation drawn again, after it was found and perhaps changed. -/
theorem perform_recompute_replace {e e₁ : Equation} {id : Int} (hf : w.find? id = some e)
    (h : e₁.id = e.id) : perform (recompute id) (w.replace e₁) =
      match e₁.redraw w.domain with
      | .ok e' => (.ok e', w.replace e')
      | .error c => (.error (.crashed c), w.replace e₁) := by
  rw [perform_recompute, find?_replace hf h]
  dsimp only
  rw [replace_domain]
  cases hr : e₁.redraw w.domain with
  | error c => rfl
  | ok e' =>
    dsimp only
    rw [replace_replace w (Equation.redraw_id hr)]

theorem change_recompute (id : Int) (hp : Passes (perform (recompute id) w).1) :
    Change w (perform (recompute id) w).2 := by
  rw [perform_recompute] at hp ⊢
  cases hf : w.find? id with
  | none => exact .same
  | some e =>
    simp only [hf] at hp ⊢
    cases hr : e.redraw w.domain with
    | error c =>
      rw [hr] at hp
      exact hp.elim
    | ok e' => exact .redrawn e.expression (mem_of_find? hf).1 hr

theorem change_setExpression (id : Int) (text : String)
    (hp : Passes (perform (setExpression id text) w).1) :
    Change w (perform (setExpression id text) w).2 := by
  rw [setExpression, perform_bind, perform_get] at hp ⊢
  cases hf : w.find? id with
  | none => exact .same
  | some e =>
    have hr : perform (recompute id) (w.replace { e with expression := text }) = _ :=
      perform_recompute_replace hf rfl
    simp only [hf, perform_bind, perform_put, hr] at hp ⊢
    cases hr : ({ e with expression := text } : Equation).redraw w.domain with
    | error c =>
      rw [hr] at hp
      exact hp.elim
    | ok e' => exact .redrawn text (mem_of_find? hf).1 hr

theorem change_toggle (id : Int) (hp : Passes (perform (toggle id) w).1) :
    Change w (perform (toggle id) w).2 := by
  rw [toggle, perform_bind, perform_get] at hp ⊢
  cases hf : w.find? id with
  | none => exact .same
  | some e =>
    have hr : perform (recompute id) (w.replace { e with visible := !e.visible }) = _ :=
      perform_recompute_replace hf rfl
    simp only [hf, perform_bind, perform_put, perform_getThe] at hp ⊢
    rw [replace_domain] at hp ⊢
    have hm := (mem_of_find? hf).1
    split at hp
    · next hc =>
      rw [if_pos hc]
      rw [hr] at hp ⊢
      cases hr : ({ e with visible := !e.visible } : Equation).redraw w.domain with
      | error c =>
        rw [hr] at hp
        exact hp.elim
      | ok e' => exact .toggled hm (by rw [Equation.toggled, if_pos hc, hr])
    · next hc =>
      rw [if_neg hc]
      exact .toggled hm (by rw [Equation.toggled, if_neg hc])

theorem Ordered.appended (hw : Ordered w) {e : Equation} (he : e.id = w.nextId) :
    Ordered (w.appended e) := by
  constructor
  · refine List.pairwise_append.2 ⟨hw.increasing, List.pairwise_singleton _ _, fun o ho e' he' => ?_⟩
    obtain rfl := List.mem_singleton.1 he'
    exact he ▸ hw.fresh o ho
  · intro o ho
    change o.id < w.nextId + 1
    obtain ho | ho := List.mem_append.1 ho
    · exact Nat.lt_succ_of_lt (hw.fresh o ho)
    · rw [List.mem_singleton.1 ho, he]
      exact Nat.lt_succ_self _

theorem perform_add (hw : Ordered w) (expression : String) (color : Option String)
    (visible : Bool) : perform (add expression color visible) w =
      let e := undrawn w.nextId expression (color.getD (paletteColor w.nextId)) visible
      match if visible then e.redraw w.domain else .ok e with
      | .ok e' => (.ok e', w.appended e')
      | .error c => (.error (.crashed c), w.appended e) := by
  let e := undrawn w.nextId expression (color.getD (paletteColor w.nextId)) visible
  have ho := hw.appended (e := e) rfl
  have hf : (w.appended e).find? e.id = some e := ho.find?_eq_some (by simp [appended])
  have ha : perform (add expression color visible) w =
    perform (if visible then recompute e.id else pure e) (w.appended e) := rfl
  rw [ha]
  cases visible with
  | false => rfl
  | true =>
    simp only [if_true]
    rw [perform_recompute, hf]
    have hd : (w.appended e).domain = w.domain := rfl
    dsimp only
    rw [hd]
    cases hr : e.redraw w.domain with
    | error c => rfl
    | ok e' =>
      have hrep := ho.replace_eq w.equations [] rfl (Equation.redraw_id hr)
      dsimp only
      rw [hrep]
      rfl

theorem change_add (hw : Ordered w) (expression : String) (color : Option String) (visible : Bool)
    (hp : Passes (perform (add expression color visible) w).1) :
    Change w (perform (add expression color visible) w).2 := by
  rw [perform_add hw] at hp ⊢
  dsimp only at hp ⊢
  split at hp
  · next e' he => exact .added _ _ visible he
  · exact hp.elim

theorem change_recomputeAll (hw : Ordered w) (hp : Passes (perform recomputeAll w).1) :
    Change w (perform recomputeAll w).2 := by
  obtain ⟨es, hes, he⟩ | ⟨-, -, c, -, w', he⟩ := perform_recomputeAll hw
  · rw [he]
    exact .refreshed w.domain hes
  · rw [he] at hp
    exact hp.elim

theorem change_setDomain (hw : Ordered w) (d : Domain Float)
    (hp : Passes (perform (setDomain d) w).1) : Change w (perform (setDomain d) w).2 := by
  have hr : perform (setDomain d) w = perform recomputeAll { w with domain := d } := rfl
  have ho : Ordered { w with domain := d } := hw.of_ids rfl (Nat.le_refl _)
  rw [hr] at hp ⊢
  obtain ⟨es, hes, he⟩ | ⟨-, -, c, -, w', he⟩ := perform_recomputeAll ho
  · rw [he]
    exact .refreshed d hes
  · rw [he] at hp
    exact hp.elim

theorem change_setColorMode (name : String) : Change w (perform (setColorMode name) w).2 := by
  rw [setColorMode, modeOf, perform_bind]
  cases Color.Mode.ofName? name with
  | none => exact .same
  | some mode => exact .recolored mode

theorem change_delete (id : Int) : Change w (perform (delete id) w).2 := by
  rw [delete, perform_bind, perform_get]
  cases hf : w.find? id with
  | none => exact .same
  | some e => exact .deleted (mem_of_find? hf).1

/-- Two steps that change nothing change nothing together. -/
theorem perform_bind_frame {α β : Type} {a : Action α} {f : α → Action β}
    (h : (perform a w).2 = w) (hf : ∀ r, (perform (f r) w).2 = w) :
    (perform (a >>= f) w).2 = w := by
  rw [perform_bind]
  cases ha : perform a w with
  | mk r w' =>
    rw [ha] at h
    cases r with
    | error c => exact h
    | ok r =>
      subst h
      exact hf r

theorem perform_get_bind {α : Type} (id : Int) (f : Equation → Action α)
    (hf : ∀ e, (perform (f e) w).2 = w) : (perform (get id >>= f) w).2 = w := by
  apply perform_bind_frame _ hf
  rw [perform_get]
  cases w.find? id <;> rfl

theorem perform_mesh (id : Int) : (perform (mesh id) w).2 = w := by
  apply perform_get_bind
  intro e
  split <;> rfl

theorem perform_measures (id : Int) : (perform (measures id) w).2 = w := by
  apply perform_get_bind
  intro e
  exact perform_bind_frame (perform_mesh id) fun _ => rfl

theorem perform_extrema (id : Int) : (perform (extrema id) w).2 = w :=
  perform_bind_frame (perform_mesh id) fun _ => rfl

theorem perform_colors (id : Int) : (perform (colors id) w).2 = w := by
  apply perform_get_bind
  intro e
  split <;> rfl

theorem perform_evaluate (id : Int) (x y : Value) : (perform (evaluate id x y) w).2 = w := by
  apply perform_get_bind
  intro e
  cases PointValue.evaluate e.target x y <;> rfl

/-- An operation that does not crash makes one of the changes. -/
theorem Operation.change (hw : Ordered w) (op : Operation) (hp : Passes (perform op.action w).1) :
    Change w (perform op.action w).2 := by
  cases op with
  | add expression color visible =>
    simp only [action, perform_discard, passes_map] at hp ⊢
    exact change_add hw expression color visible hp
  | setExpression id text =>
    simp only [action, perform_discard, passes_map] at hp ⊢
    exact change_setExpression id text hp
  | recompute id =>
    simp only [action, perform_discard, passes_map] at hp ⊢
    exact change_recompute id hp
  | recomputeAll => exact change_recomputeAll hw hp
  | toggle id =>
    simp only [action, perform_discard, passes_map] at hp ⊢
    exact change_toggle id hp
  | setDomain d => exact change_setDomain hw d hp
  | setColorMode name => exact change_setColorMode name
  | delete id => exact change_delete id
  | measures id =>
    rw [action, perform_discard, perform_measures]
    exact .same
  | extrema id =>
    rw [action, perform_discard, perform_extrema]
    exact .same
  | colors id =>
    rw [action, perform_discard, perform_colors]
    exact .same
  | evaluate id x y =>
    rw [action, perform_discard, perform_evaluate]
    exact .same

end Inversion

end Workspace

end Relief
