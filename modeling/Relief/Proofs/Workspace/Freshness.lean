import Relief.Proofs.SameDomain
import Relief.Proofs.Workspace.Consistency

/-!
What is to be seen is drawn from the current text over the current domain, whatever was done before.
-/
namespace Relief

namespace Equation

/-- What is drawn is no older than the text and the domain, as far as it is to be seen. -/
structure Settled (e : Equation) (d : Domain Float) : Prop where
  /-- A formula that is drawn is that of the text, unless the text is refused. -/
  current : e.isBlank = false → e.rejection = none → ∀ f, e.evaluator? = some f →
    Evaluator.compile e.expression = .ok f
  /-- What is to be seen is drawn over the domain. -/
  drawnOver : e.isShown = true → e.rejection = none → e.isDrawnOver d = true

variable {e e' : Equation} {d d' : Domain Float}

theorem isBlank_of_isShown (h : e.isShown = true) : e.isBlank = false := by
  simp only [isShown, Bool.and_eq_true, Bool.not_eq_true'] at h
  exact h.2

/-- Whatever is drawn again is settled. -/
theorem settled_redraw (hr : e.redraw d = .ok e') : e'.Settled d := by
  obtain ⟨hb, rfl⟩ | ⟨hb, r, hc, rfl⟩ | ⟨hb, f, m, hc, hm, rfl⟩ := redraw_cases hr
  · exact ⟨fun _ _ _ => nofun, fun hs => absurd ((isBlank_of_isShown hs).symm.trans hb) (by decide)⟩
  · exact ⟨fun _ => nofun, fun _ => nofun⟩
  · refine ⟨fun _ _ g hg => ?_, fun _ _ => d.same_self⟩
    rw [← Option.some.inj hg]
    exact hc

theorem Settled.refresh (h : e.Settled d') (hr : e.refresh d = .ok e') : e'.Settled d := by
  rw [Equation.refresh] at hr
  split at hr
  · exact settled_redraw hr
  · next hs =>
    rw [← Except.ok.inj hr]
    exact ⟨h.current, fun hs' => absurd hs' hs⟩

theorem Settled.toggled (h : e.Settled d') (hr : e.toggled d = .ok e') : e'.Settled d := by
  simp only [Equation.toggled] at hr
  split at hr
  · exact settled_redraw hr
  · next hs =>
    rw [← Except.ok.inj hr]
    refine ⟨h.current, fun hs' _ => ?_⟩
    simpa [hs'] using hs

/-- What is to be seen of a sound and settled equation, if its text is not refused. -/
theorem Settled.drawn (h : e.Settled d) (hs : e.Sound) (hv : e.isShown = true)
    (hn : e.rejection = none) : ∃ f m d', Evaluator.compile e.expression = .ok f ∧
      Mesh.ofEvaluator f d = .ok m ∧ e.evaluator? = some f ∧ e.mesh? = some m ∧
      e.sampledDomain? = some d' ∧ d'.same d = true := by
  have hd := h.drawnOver hv hn
  obtain ⟨-, -, hnone⟩ | ⟨f, m, d', hf, hm, hd', ho⟩ := hs.whole
  · simp [isDrawnOver, hnone] at hd
  · have hsame : d'.same d = true := by simpa [isDrawnOver, hd'] using hd
    refine ⟨f, m, d', h.current (isBlank_of_isShown hv) hn f hf, ?_, hf, hm, hd', hsame⟩
    rw [← Mesh.ofEvaluator_eq hsame]
    exact ho

/-- The same but for the domain under the surface, of which a zero bound may have the other sign. -/
structure Alike (e e' : Equation) : Prop where
  frame : e' = { e with sampledDomain? := e'.sampledDomain? }
  domain : e'.sampledDomain? = e.sampledDomain? ∨
    ∃ d d', e.sampledDomain? = some d ∧ e'.sampledDomain? = some d' ∧ d.same d' = true

/-- Drawing a settled equation again changes nothing. -/
theorem Settled.refresh_alike (h : e.Settled d) (hs : e.Sound) :
    ∃ e', e.refresh d = .ok e' ∧ e.Alike e' := by
  by_cases hv : e.isShown = true
  · have hb := isBlank_of_isShown hv
    rw [Equation.refresh, if_pos hv]
    cases hn : e.rejection with
    | some r =>
      refine ⟨_, redraw_of_rejected hb (hs.rejected r hn), ?_, .inl rfl⟩
      rw [← hn]
    | none =>
      obtain ⟨f, m, d', hf, ho, hf', hm, hd, hsame⟩ := h.drawn hs hv hn
      refine ⟨_, redraw_of_sample hb hf ho, ?_, .inr ⟨d', d, hd, rfl, hsame⟩⟩
      simp only [install, release, ← hf', ← hm, ← hn]
  · rw [Equation.refresh, if_neg hv]
    exact ⟨e, rfl, rfl, .inl rfl⟩

end Equation

namespace Workspace

variable {w w' : Workspace}

def Settled (w : Workspace) : Prop := ∀ e ∈ w.equations, e.Settled w.domain

/-- Every change leaves a settled workspace settled. -/
theorem Settled.change (hw : Settled w) (h : Change w w') : Settled w' := by
  intro o ho
  cases h with
  | same => exact hw o ho
  | added expression color visible he =>
    obtain ho | ho := List.mem_append.1 ho
    · exact hw o ho
    · obtain rfl := List.mem_singleton.1 ho
      split at he
      · exact Equation.settled_redraw he
      · next hv =>
        rw [← Except.ok.inj he]
        exact ⟨fun _ _ _ => nofun, fun hs => by simp [Equation.isShown, undrawn, hv] at hs⟩
  | redrawn text hm hr =>
    obtain rfl | ho := mem_replace ho
    · exact Equation.settled_redraw hr
    · exact hw o ho
  | toggled hm hr =>
    obtain rfl | ho := mem_replace ho
    · exact (hw _ hm).toggled hr
    · exact hw o ho
  | refreshed d hes =>
    obtain ⟨e, he, hr⟩ := forall₂_mem hes ho
    exact (hw e he).refresh hr
  | recolored mode => exact hw o ho
  | deleted hm => exact hw o (List.mem_of_mem_filter ho)

theorem Settled.leads (hw : Settled w) (hc : Consistent w) (h : Leads w w') : Settled w' := by
  induction h with
  | refl => exact hw
  | step op hl hp ih => exact ih.change (op.change (hc.leads hl).ordered hp)

theorem settled_empty (d : Domain Float) (mode : Color.Mode) : Settled (empty d mode) :=
  fun _ he => absurd he List.not_mem_nil

theorem Reachable.settled (h : Reachable w) : Settled w := by
  obtain ⟨d, mode, hl⟩ := h
  exact (settled_empty d mode).leads (consistent_empty d mode) hl

/-- Drawing all equations again changes nothing. -/
theorem Settled.perform_recomputeAll (hw : Settled w) (hc : Consistent w) :
    ∃ es, perform recomputeAll w = (.ok (), { w with equations := es }) ∧
      List.Forall₂ Equation.Alike w.equations es := by
  obtain ⟨es, hes, hp⟩ | ⟨e, he, c, hr, -⟩ := Workspace.perform_recomputeAll hc.ordered
  · have hall : List.Forall₂ (fun e e' => (e.Settled w.domain ∧ e.Sound) ∧
        e.refresh w.domain = .ok e') w.equations es :=
      (List.forall₂_and_left _ _).2 ⟨fun e he => ⟨hw e he, hc.sound e he⟩, hes⟩
    refine ⟨es, hp, hall.imp fun e e' h => ?_⟩
    obtain ⟨o, ho, ha⟩ := h.1.1.refresh_alike h.1.2
    rw [h.2] at ho
    exact Except.ok.inj ho ▸ ha
  · obtain ⟨e', hr', -⟩ := (hw e he).refresh_alike (hc.sound e he)
    rw [hr] at hr'
    cases hr'

end Workspace

end Relief
