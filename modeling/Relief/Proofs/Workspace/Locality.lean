import Mathlib
import Relief.Proofs.Evaluator.Compile
import Relief.Proofs.Workspace.Change

/-!
Operations on one equation look at no other and leave all others as they are. So operations on different
equations can be done in either order. What fails because an equation is unknown changes nothing.
-/
namespace Relief.Workspace

/-- Equations keep their ids, and only those with the given id are changed or go. -/
structure Confined (id : Int) (g : Equation → Option Equation) : Prop where
  id_eq : ∀ e e', g e = some e' → e'.id = e.id
  other : ∀ e, (e.id : Int) ≠ id → g e = some e

/-- With every equation changed or gone by itself. -/
def transform (w : Workspace) (g : Equation → Option Equation) : Workspace :=
  { w with equations := w.equations.filterMap g }

variable {w v : Workspace} {id id' : Int} {g g' : Equation → Option Equation}

/-! ### Changes of single equations -/

theorem transform_some (w : Workspace) : w.transform some = w := by
  rw [transform, List.filterMap_some]

theorem transform_transform (w : Workspace) (g g' : Equation → Option Equation) :
    (w.transform g).transform g' = w.transform fun e => (g e).bind g' := by
  simp only [transform, List.filterMap_filterMap]

theorem confined_some (id : Int) : Confined id some :=
  ⟨fun _ _ h => Option.some.inj h ▸ rfl, fun _ _ => rfl⟩

theorem Confined.bind (h : Confined id g) (h' : Confined id g') :
    Confined id fun e => (g e).bind g' := by
  constructor
  · intro e e' he
    obtain ⟨o, ho, ho'⟩ := Option.bind_eq_some_iff.1 he
    exact (h'.id_eq o e' ho').trans (h.id_eq e o ho)
  · intro e hne
    rw [h.other e hne, Option.bind_some, h'.other e hne]

theorem Confined.bind_eq (h : Confined id g) {e : Equation} {o : Option Equation}
    (ho : ∀ e', o = some e' → e'.id = e.id) (hne : (e.id : Int) ≠ id) : o.bind g = o := by
  cases o with
  | none => rfl
  | some e' =>
    have hid := ho e' rfl
    apply h.other
    rwa [hid]

theorem Confined.comm (h : Confined id g) (h' : Confined id' g') (hne : id ≠ id') (w : Workspace) :
    (w.transform g).transform g' = (w.transform g').transform g := by
  rw [transform_transform, transform_transform]
  apply congrArg w.transform
  funext e
  by_cases he : (e.id : Int) = id
  · have hne' : (e.id : Int) ≠ id' := he ▸ hne
    rw [h'.bind_eq (h.id_eq e) hne', h'.other e hne', Option.bind_some]
  · rw [h.bind_eq (h'.id_eq e) he, h.other e he, Option.bind_some]

theorem Confined.any_id (h : Confined id g) (hne : id ≠ id') (e : Equation) :
    ((g e).any fun o => (o.id : Int) == id') = ((e.id : Int) == id') := by
  by_cases he : (e.id : Int) = id
  · cases hg : g e with
    | none => simp [he, hne]
    | some e' => simp [h.id_eq e e' hg]
  · rw [h.other e he, Option.any_some]

theorem Confined.find?_eq (h : Confined id g) (hne : id ≠ id') (w : Workspace) :
    (w.transform g).find? id' = w.find? id' := by
  simp only [find?, transform, List.find?_filterMap, h.any_id hne]
  cases hf : w.equations.find? fun e => (e.id : Int) == id' with
  | none => rfl
  | some e =>
    have hid : (e.id : Int) = id' := (mem_of_find? hf).2
    exact h.other e fun he => hne (he.symm.trans hid)

/-- An equation in the place of those that have its id. -/
def substituted (e o : Equation) : Option Equation :=
  some (if o.id == e.id then e else o)

theorem replace_eq_transform (w : Workspace) (e : Equation) :
    w.replace e = w.transform (substituted e) := by
  rw [replace, transform]
  unfold substituted
  rw [List.filterMap_eq_map']

theorem confined_substituted {e : Equation} (h : (e.id : Int) = id) :
    Confined id (substituted e) := by
  constructor
  · intro o e' he
    obtain rfl := Option.some.inj he
    by_cases ho : o.id = e.id <;> simp [ho]
  · intro o ho
    have hne : o.id ≠ e.id := fun he => ho (by rw [he, h])
    simp [substituted, hne]

/-! ### Operations on one equation -/

/-- An action that only looks at the domain and at the equation with the given id. -/
structure Local (id : Int) (a : Action Unit) : Prop where
  unknown : ∀ w : Workspace, w.find? id = none → perform a w = (.error (.unknownEquation id), w)
  known : ∀ (w : Workspace) e, w.find? id = some e → ∃ out g, Confined id g ∧
    (∀ i, out ≠ .error (.unknownEquation i)) ∧
    ∀ v : Workspace, v.domain = w.domain → v.find? id = some e → perform a v = (out, v.transform g)

theorem crashed_ne_unknown {α : Type} (c : Crash) (i : Int) :
    (.error (.crashed c) : Except Failure α) ≠ .error (.unknownEquation i) := by
  intro h
  cases h

theorem local_recompute (id : Int) : Local id (discard (recompute id)) := by
  constructor
  · intro w hf
    rw [perform_discard, perform_recompute, hf]
    rfl
  · intro w e hf
    cases hr : e.redraw w.domain with
    | error c =>
      refine ⟨.error (.crashed c), some, confined_some id, crashed_ne_unknown c, fun v hd hv => ?_⟩
      rw [perform_discard, perform_recompute, hv, hd]
      simp only [hr, transform_some]
      rfl
    | ok e' =>
      have hid : (e'.id : Int) = id := by rw [Equation.redraw_id hr, (mem_of_find? hf).2]
      refine ⟨.ok (), substituted e', confined_substituted hid, fun _ => ok_ne_error, fun v hd hv => ?_⟩
      rw [perform_discard, perform_recompute, hv, hd]
      simp only [hr, replace_eq_transform]
      rfl

/-- An equation that is changed at once and then drawn again. -/
theorem known_redrawn {e e₁ : Equation} (hf : w.find? id = some e) (h : e₁.id = e.id) :
    ∃ out g, Confined id g ∧ (∀ i, out ≠ .error (.unknownEquation i)) ∧
      ∀ v : Workspace, v.domain = w.domain → v.find? id = some e →
        perform (discard (recompute id)) (v.replace e₁) = (out, v.transform g) := by
  have hid : (e₁.id : Int) = id := by rw [h, (mem_of_find? hf).2]
  obtain ⟨out, g, hg, hu, hp⟩ := (local_recompute id).known (w.replace e₁) e₁ (find?_replace hf h)
  refine ⟨out, _, (confined_substituted hid).bind hg, hu, fun v hd hv => ?_⟩
  rw [hp (v.replace e₁) hd (find?_replace hv h), replace_eq_transform, transform_transform]

theorem perform_setExpression {e : Equation} (hf : w.find? id = some e) (text : String) :
    perform (discard (setExpression id text)) w =
      perform (discard (recompute id)) (w.replace { e with expression := text }) := by
  rw [perform_discard, perform_discard, setExpression, perform_bind, perform_get, hf]
  simp only [perform_bind, perform_put]

theorem local_setExpression (id : Int) (text : String) :
    Local id (discard (setExpression id text)) := by
  constructor
  · intro w hf
    rw [perform_discard, setExpression, perform_bind, perform_get, hf]
    rfl
  · intro w e hf
    let e₁ := { e with expression := text }
    have hid : e₁.id = e.id := rfl
    obtain ⟨out, g, hg, hu, hp⟩ := known_redrawn hf hid
    refine ⟨out, g, hg, hu, fun v hd hv => ?_⟩
    rw [perform_setExpression hv]
    exact hp v hd hv

theorem perform_toggle {e : Equation} (hf : w.find? id = some e) :
    let e₁ := { e with visible := !e.visible }
    perform (discard (toggle id)) w =
      if e₁.isShown && !e₁.isDrawnOver w.domain then
        perform (discard (recompute id)) (w.replace e₁)
      else (.ok (), w.replace e₁) := by
  rw [perform_discard, toggle, perform_bind, perform_get, hf]
  simp only [perform_bind, perform_put, perform_getThe]
  rw [replace_domain]
  split
  · rw [perform_discard]
  · rfl

theorem local_toggle (id : Int) : Local id (discard (toggle id)) := by
  constructor
  · intro w hf
    rw [perform_discard, toggle, perform_bind, perform_get, hf]
    rfl
  · intro w e hf
    let e₁ := { e with visible := !e.visible }
    have hid : e₁.id = e.id := rfl
    by_cases hs : (e₁.isShown && !e₁.isDrawnOver w.domain) = true
    · obtain ⟨out, g, hg, hu, hp⟩ := known_redrawn hf hid
      refine ⟨out, g, hg, hu, fun v hd hv => ?_⟩
      rw [perform_toggle hv, hd, if_pos hs]
      exact hp v hd hv
    · have hid' : (e₁.id : Int) = id := (mem_of_find? hf).2
      refine ⟨.ok (), _, confined_substituted hid', fun _ => ok_ne_error, fun v hd hv => ?_⟩
      rw [perform_toggle hv, hd, if_neg hs, replace_eq_transform]

theorem confined_guard {e : Equation} (h : (e.id : Int) = id) :
    Confined id (Option.guard fun o => o.id != e.id) := by
  constructor
  · intro o e' ho
    rw [(Option.guard_eq_some_iff.1 ho).1]
  · intro o ho
    have hne : o.id ≠ e.id := fun he => ho (by rw [he, h])
    exact Option.guard_eq_some_iff.2 ⟨rfl, bne_iff_ne.2 hne⟩

theorem local_delete (id : Int) : Local id (delete id) := by
  constructor
  · intro w hf
    rw [delete, perform_bind, perform_get, hf]
  · intro w e hf
    refine ⟨.ok (), _, confined_guard (mem_of_find? hf).2, fun _ => ok_ne_error, fun v _ hv => ?_⟩
    rw [delete, perform_bind, perform_get, hv, transform, List.filterMap_eq_filter]
    rfl

/-- The operations on the equation with the given id that may change it. -/
def Operation.Addresses (id : Int) : Operation → Prop
  | setExpression i _ | recompute i | toggle i | delete i => i = id
  | _ => False

theorem Operation.Addresses.isLocal {op : Operation} (h : op.Addresses id) : Local id op.action := by
  cases op with
  | setExpression i text =>
    obtain rfl : i = id := h
    exact local_setExpression i text
  | recompute i =>
    obtain rfl : i = id := h
    exact local_recompute i
  | toggle i =>
    obtain rfl : i = id := h
    exact local_toggle i
  | delete i =>
    obtain rfl : i = id := h
    exact local_delete i
  | add | recomputeAll | setDomain | setColorMode | measures | extrema | colors | evaluate =>
    exact h.elim

theorem Local.commute {a b : Action Unit} (ha : Local id a) (hb : Local id' b) (hne : id ≠ id')
    (w : Workspace) :
    (perform b (perform a w).2).1 = (perform b w).1 ∧
      (perform b (perform a w).2).2 = (perform a (perform b w).2).2 := by
  cases hf : w.find? id with
  | none =>
    have hskip : (perform a w).2 = w := by rw [ha.unknown w hf]
    rw [hskip]
    refine ⟨rfl, ?_⟩
    cases hf' : w.find? id' with
    | none => rw [hb.unknown w hf', hskip]
    | some e =>
      obtain ⟨out, g, hg, -, hp⟩ := hb.known w e hf'
      rw [hp w rfl hf', ha.unknown _ ((hg.find?_eq hne.symm w).trans hf)]
  | some e =>
    obtain ⟨out, g, hg, -, hp⟩ := ha.known w e hf
    have hkeep := hg.find?_eq hne w
    rw [hp w rfl hf]
    cases hf' : w.find? id' with
    | none =>
      rw [hb.unknown w hf', hb.unknown _ (hkeep.trans hf'), hp w rfl hf]
      exact ⟨rfl, rfl⟩
    | some e' =>
      obtain ⟨out', g', hg', -, hp'⟩ := hb.known w e' hf'
      have hkeep' := hg'.find?_eq hne.symm w
      rw [hp' w rfl hf', hp' (w.transform g) rfl (hkeep.trans hf'),
        hp (w.transform g') rfl (hkeep'.trans hf)]
      exact ⟨rfl, hg.comm hg' hne w⟩

/-! ### Drawing several equations -/

theorem find?_ne_none {e : Equation} {n : Nat} (he : e ∈ w.equations) (hid : e.id = n) :
    w.find? n ≠ none := by
  intro hf
  have hne := List.find?_eq_none.1 hf e he
  simp [hid] at hne

/-- Only the equations with the ids of those drawn are changed, and none is unknown. -/
theorem perform_draws (es : List Equation) (w : Workspace)
    (h : ∀ e ∈ es, ∃ o ∈ w.equations, o.id = e.id) :
    ∃ g : Equation → Equation,
      (perform (es.forM fun e => discard (recompute e.id)) w).2 =
        { w with equations := w.equations.map g } ∧
      (∀ e, e.id ∉ es.map (·.id) → g e = e) ∧
      ∀ i, (perform (es.forM fun e => discard (recompute e.id)) w).1 ≠
        .error (.unknownEquation i) := by
  induction es generalizing w with
  | nil => exact ⟨id, by rw [List.map_id]; rfl, fun _ _ => rfl, fun _ => ok_ne_error⟩
  | cons e es ih =>
    obtain ⟨o, ho, hid⟩ := h e List.mem_cons_self
    rw [List.forM, perform_bind, perform_discard, perform_recompute]
    cases hf : w.find? e.id with
    | none => exact absurd hf (find?_ne_none ho hid)
    | some e₁ =>
      cases hr : e₁.redraw w.domain with
      | error c =>
        simp only [hr]
        exact ⟨id, by rw [List.map_id]; rfl, fun _ _ => rfl, crashed_ne_unknown c⟩
      | ok e' =>
        have hid' : e'.id = e.id := by
          have hi := (mem_of_find? hf).2
          rw [Equation.redraw_id hr]
          exact_mod_cast hi
        have hids := replace_ids w e'
        obtain ⟨g, hw, hg, hu⟩ := ih (w.replace e') fun e₂ he₂ => by
          obtain ⟨o₂, ho₂, hid₂⟩ := h e₂ (List.mem_cons_of_mem e he₂)
          rw [← List.mem_map, hids, ← hid₂]
          exact List.mem_map_of_mem ho₂
        simp only [hr]
        refine ⟨fun o => g (if o.id == e'.id then e' else o), ?_, fun o hno => ?_, hu⟩
        · refine hw.trans ?_
          rw [replace, List.map_map]
          rfl
        · rw [List.map_cons, List.mem_cons, not_or] at hno
          have hne : ¬ (o.id == e'.id) = true := by
            rw [beq_iff_eq, hid']
            exact hno.1
          dsimp only
          rw [if_neg hne]
          exact hg o hno.2

theorem mem_shown {e : Equation} (h : e ∈ w.equations.filter Equation.isShown) :
    ∃ o ∈ w.equations, o.id = e.id :=
  ⟨e, List.mem_of_mem_filter h, rfl⟩

theorem recomputeAll_ne_unknown (w : Workspace) (i : Int) :
    (perform recomputeAll w).1 ≠ .error (.unknownEquation i) := by
  obtain ⟨-, -, -, hu⟩ := perform_draws (w.equations.filter Equation.isShown) w fun _ => mem_shown
  exact hu i

theorem add_ne_unknown (w : Workspace) (expression : String) (color : Option String)
    (visible : Bool) (i : Int) :
    (perform (add expression color visible) w).1 ≠ .error (.unknownEquation i) := by
  let e := undrawn w.nextId expression (color.getD (paletteColor w.nextId)) visible
  have ha : perform (add expression color visible) w =
    perform (if visible then recompute e.id else pure e) (w.appended e) := rfl
  have hm : e ∈ (w.appended e).equations := List.mem_append_right _ (List.mem_singleton_self e)
  rw [ha]
  cases visible with
  | false => exact ok_ne_error
  | true =>
    rw [if_pos rfl, perform_recompute]
    cases hf : (w.appended e).find? e.id with
    | none => exact absurd hf (find?_ne_none hm rfl)
    | some o =>
      dsimp only
      cases o.redraw (w.appended e).domain with
      | error c => exact crashed_ne_unknown c i
      | ok o' => exact ok_ne_error

theorem Local.unchanged {a : Action Unit} (h : Local id a) {i : Int}
    (hu : (perform a w).1 = .error (.unknownEquation i)) : (perform a w).2 = w := by
  cases hf : w.find? id with
  | none => rw [h.unknown w hf]
  | some e =>
    obtain ⟨out, g, -, hne, hp⟩ := h.known w e hf
    rw [hp w rfl hf] at hu
    exact absurd hu (hne i)

theorem map_eq_unknown {α β : Type} {f : α → β} {r : Except Failure α} {i : Int}
    (h : r.map f = .error (.unknownEquation i)) : r = .error (.unknownEquation i) := by
  cases r with
  | ok a => cases h
  | error e => exact congrArg Except.error (Except.error.inj h)

theorem perform_setColorMode (w : Workspace) (name : String) : perform (setColorMode name) w =
    match Color.Mode.ofName? name with
    | none => (.error (.unknownMode name), w)
    | some mode => (.ok (), { w with colorMode := mode }) := by
  rw [setColorMode, modeOf, perform_bind]
  cases Color.Mode.ofName? name <;> rfl

/-- An operation that fails because an equation is unknown changes nothing. -/
theorem Operation.unchanged {op : Operation} {i : Int}
    (hu : (perform op.action w).1 = .error (.unknownEquation i)) : (perform op.action w).2 = w := by
  cases op with
  | add expression color visible =>
    rw [action, perform_discard] at hu
    exact absurd (map_eq_unknown hu) (add_ne_unknown w expression color visible i)
  | setExpression id text => exact (local_setExpression id text).unchanged hu
  | recompute id => exact (local_recompute id).unchanged hu
  | recomputeAll => exact absurd hu (recomputeAll_ne_unknown w i)
  | toggle id => exact (local_toggle id).unchanged hu
  | setDomain d => exact absurd hu (recomputeAll_ne_unknown { w with domain := d } i)
  | setColorMode name =>
    rw [action, perform_setColorMode] at hu ⊢
    cases hn : Color.Mode.ofName? name with
    | none => rfl
    | some mode =>
      rw [hn] at hu
      cases hu
  | delete id => exact (local_delete id).unchanged hu
  | measures id => rw [action, perform_discard, perform_measures]
  | extrema id => rw [action, perform_discard, perform_extrema]
  | colors id => rw [action, perform_discard, perform_colors]
  | evaluate id x y => rw [action, perform_discard, perform_evaluate]

theorem perform_recompute_rejected {e : Equation} {r : Rejection} (hf : w.find? id = some e)
    (hb : e.isBlank = false) (hr : Evaluator.compile e.expression = .error (.rejected r)) :
    perform (recompute id) w =
      (.ok { e with rejection := some r }, w.replace { e with rejection := some r }) := by
  rw [perform_recompute, hf]
  simp only [Equation.redraw_of_rejected hb hr]

/-- A change of the domain leaves equations that are not shown as they are, also where it crashes. -/
theorem perform_setDomain (hw : (w.equations.map (·.id)).Nodup) (d : Domain Float) :
    ∃ g : Equation → Equation,
      (perform (setDomain d) w).2 = { w with domain := d, equations := w.equations.map g } ∧
      ∀ e ∈ w.equations, e.isShown = false → g e = e := by
  obtain ⟨g, hp, hg, -⟩ := perform_draws (w.equations.filter Equation.isShown)
    { w with domain := d } fun _ => mem_shown
  refine ⟨g, hp, fun e he hs => hg e fun hm => ?_⟩
  obtain ⟨o, ho, hid⟩ := List.mem_map.1 hm
  obtain ⟨ho, hshown⟩ := List.mem_filter.1 ho
  obtain rfl : o = e := List.inj_on_of_nodup_map hw ho he hid
  rw [hs] at hshown
  cases hshown

/-- An operation on one equation leaves all others as they are, and the domain, the mode and the next id,
whatever its outcome. So two of them on different equations can be done in either order, each with the
same outcome. Nothing changes where an equation or a mode is unknown. A refused text only leaves the
reason behind. A new domain leaves the equations that are hidden or blank as they are, if no two
equations have the same id. -/
theorem operations_confined (w : Workspace) :
    (∀ id (op : Operation), op.Addresses id → ∃ g, Confined id g ∧
      (perform op.action w).2 = { w with equations := w.equations.filterMap g }) ∧
    (∀ id id' (op op' : Operation), op.Addresses id → op'.Addresses id' → id ≠ id' →
      (perform op'.action (perform op.action w).2).1 = (perform op'.action w).1 ∧
      (perform op'.action (perform op.action w).2).2 =
        (perform op.action (perform op'.action w).2).2) ∧
    (∀ id (op : Operation), op.Addresses id → w.find? id = none →
      perform op.action w = (.error (.unknownEquation id), w)) ∧
    (∀ (op : Operation) i, (perform op.action w).1 = .error (.unknownEquation i) →
      (perform op.action w).2 = w) ∧
    (∀ name, Color.Mode.ofName? name = none →
      perform (setColorMode name) w = (.error (.unknownMode name), w)) ∧
    (∀ id e r, w.find? id = some e → e.isBlank = false →
      Evaluator.compile e.expression = .error (.rejected r) →
      perform (recompute id) w =
        (.ok { e with rejection := some r }, w.replace { e with rejection := some r })) ∧
    ∀ d, (w.equations.map (·.id)).Nodup → ∃ g : Equation → Equation,
      (perform (setDomain d) w).2 = { w with domain := d, equations := w.equations.map g } ∧
      ∀ e ∈ w.equations, e.visible = false ∨ e.isBlank = true → g e = e := by
  refine ⟨fun id op h => ?_, fun id id' op op' h h' hne => h.isLocal.commute h'.isLocal hne w,
    fun id op h hf => h.isLocal.unknown w hf, fun op i hu => op.unchanged hu,
    fun name hn => by rw [perform_setColorMode, hn],
    fun id e r hf hb hr => perform_recompute_rejected hf hb hr, fun d hw => ?_⟩
  · cases hf : w.find? id with
    | none =>
      refine ⟨some, confined_some id, ?_⟩
      rw [h.isLocal.unknown w hf, List.filterMap_some]
    | some e =>
      obtain ⟨out, g, hg, -, hp⟩ := h.isLocal.known w e hf
      exact ⟨g, hg, congrArg Prod.snd (hp w rfl hf)⟩
  · obtain ⟨g, hp, hg⟩ := perform_setDomain hw d
    refine ⟨g, hp, fun e he hs => hg e he ?_⟩
    rw [Equation.isShown, Bool.and_eq_false_iff]
    exact hs.imp_right fun hb => by rw [hb]; rfl

/-- A hidden sum without its second term, beside a blank equation. -/
theorem operations_confined_sum :
    let e := undrawn 1 "x+" "#6366f1" false
    let w : Workspace := ⟨.standard, .solid, [e, undrawn 2 "" "#ec4899" true], 3⟩
    (∃ r, perform (recompute 1) w =
      (.ok { e with rejection := some r }, w.replace { e with rejection := some r })) ∧
    (perform (Operation.delete 2).action (perform (Operation.recompute 1).action w).2).2 =
      (perform (Operation.recompute 1).action (perform (Operation.delete 2).action w).2).2 ∧
    perform (Operation.toggle 3).action w = (.error (.unknownEquation 3), w) ∧
    perform (setColorMode "shiny") w = (.error (.unknownMode "shiny"), w) ∧
    ∃ g : Equation → Equation,
      (perform (setDomain .standard) w).2 =
        { w with domain := .standard, equations := w.equations.map g } ∧ g e = e := by
  intro e w
  obtain ⟨-, hcomm, hunknown, -, hmode, hrejected, hdomain⟩ := operations_confined w
  obtain ⟨r, hr⟩ := Evaluator.compile_sum
  obtain ⟨g, hp, hg⟩ := hdomain .standard (by decide)
  exact ⟨⟨r, hrejected 1 e r rfl (by decide +kernel) hr⟩,
    (hcomm 1 2 (.recompute 1) (.delete 2) rfl rfl (by decide)).2,
    hunknown 3 (.toggle 3) rfl (by decide), hmode "shiny" (by decide), g, hp,
    hg e List.mem_cons_self (.inl rfl)⟩

end Relief.Workspace
