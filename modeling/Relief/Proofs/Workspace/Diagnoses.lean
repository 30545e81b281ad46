import Relief.Workspace.Diagnoses

/-!
What is reported of a workspace. The diagnoses come equation by equation, that of the text before that of the
surface, and are gone through in this order up to the first that the policy raises. A report changes nothing.
-/
namespace Relief

/-! ### Policies -/

namespace Policy

variable {p : Policy} {d : Diagnosis} {ds : List Diagnosis} {r : Report} {code : String}

/-- A diagnosis that stops the work. -/
def Raises (p : Policy) (d : Diagnosis) : Prop := d.code ∈ p.raised ∧ d.code ∉ p.suppressed

/-- A diagnosis of which the policy says nothing. -/
def Warns (p : Policy) (d : Diagnosis) : Prop := d.code ∉ p.raised ∧ d.code ∉ p.suppressed

instance (p : Policy) : DecidablePred p.Warns := fun _ => inferInstanceAs (Decidable (_ ∧ _))

theorem action_eq_ignore (h : code ∈ p.suppressed) : p.action code = .ignore :=
  if_pos (List.contains_iff_mem.2 h)

theorem action_eq_raise (h : p.Raises d) : p.action d.code = .raise := by
  rw [action, if_neg (mt List.contains_iff_mem.1 h.2), if_pos (List.contains_iff_mem.2 h.1)]

theorem action_eq_warn (h : p.Warns d) : p.action d.code = .warn := by
  rw [action, if_neg (mt List.contains_iff_mem.1 h.2), if_neg (mt List.contains_iff_mem.1 h.1)]

/-- Every diagnosis is suppressed, raised or a warning, and no two of these. -/
theorem suppressed_or_raises_or_warns (p : Policy) (d : Diagnosis) :
    d.code ∈ p.suppressed ∨ p.Raises d ∨ p.Warns d := by
  by_cases hs : d.code ∈ p.suppressed
  · exact .inl hs
  · by_cases hr : d.code ∈ p.raised
    · exact .inr (.inl ⟨hr, hs⟩)
    · exact .inr (.inr ⟨hr, hs⟩)

/-- What becomes of diagnoses in order. Either none of them stops the work, or the first that does is raised and
those behind it are not looked at. -/
inductive Reported (p : Policy) : List Diagnosis → Report → Prop where
  | finished {ds : List Diagnosis} (h : ∀ d ∈ ds, ¬ p.Raises d) :
    Reported p ds ⟨ds.filter p.Warns, ds.filter (·.code ∈ p.suppressed), none⟩
  | stopped {before after : List Diagnosis} {d : Diagnosis} (h : ∀ x ∈ before, ¬ p.Raises x)
    (hd : p.Raises d) :
    Reported p (before ++ d :: after)
      ⟨before.filter p.Warns, before.filter (·.code ∈ p.suppressed), some d⟩

/-- What is put before diagnoses without stopping the work goes where the policy says. -/
theorem Reported.cons (h : Reported p ds r) (hd : ¬ p.Raises d) :
    Reported p (d :: ds)
      { r with
        warnings := if p.Warns d then d :: r.warnings else r.warnings
        suppressed := if d.code ∈ p.suppressed then d :: r.suppressed else r.suppressed } := by
  cases h with
  | finished h =>
    have hall : ∀ x ∈ d :: _, ¬ p.Raises x := List.forall_mem_cons.2 ⟨hd, h⟩
    simpa [List.filter_cons] using Reported.finished hall
  | @stopped before after x h hx =>
    have hall : ∀ x ∈ d :: _, ¬ p.Raises x := List.forall_mem_cons.2 ⟨hd, h⟩
    have hstop : Reported p (d :: before ++ x :: after) _ := .stopped hall hx
    simpa [List.filter_cons] using hstop

theorem reported_reportUnder (p : Policy) (ds : List Diagnosis) : Reported p ds (p.reportUnder ds) := by
  induction ds with
  | nil => exact .finished (List.forall_mem_nil _)
  | cons d ds ih =>
    rw [reportUnder]
    obtain hs | hr | hw := p.suppressed_or_raises_or_warns d
    · have hcons := ih.cons (d := d) fun hr => hr.2 hs
      rw [if_neg fun hw => hw.2 hs, if_pos hs] at hcons
      rwa [action_eq_ignore hs]
    · rw [action_eq_raise hr]
      exact @Reported.stopped p [] ds d (List.forall_mem_nil _) hr
    · have hcons := ih.cons fun hr => hw.1 hr.1
      rw [if_pos hw, if_neg hw.2] at hcons
      rwa [action_eq_warn hw]

/-- A suppressed code is neither shown nor raised, whatever else the policy says of it. -/
theorem Reported.not_mem_of_suppressed (h : Reported p ds r) (hd : d.code ∈ p.suppressed) :
    d ∉ r.warnings ∧ r.raised ≠ some d := by
  have hw : ∀ ds : List Diagnosis, d ∉ ds.filter p.Warns := fun ds hmem =>
    (of_decide_eq_true (List.mem_filter.1 hmem).2).2 hd
  cases h with
  | finished => exact ⟨hw _, nofun⟩
  | stopped _ hx =>
    refine ⟨hw _, fun he => hx.2 ?_⟩
    rwa [Option.some.inj he]

end Policy

/-! ### Diagnoses -/

namespace Equation

variable {e : Equation}

/-- What is said of the text of an equation: that it was refused, if it was. -/
inductive SaidOfText (e : Equation) : List Diagnosis → Prop where
  | accepted (h : e.rejection = none) : SaidOfText e []
  | refused {r : Rejection} (h : e.rejection = some r) :
    SaidOfText e [⟨"W01", e.title ++ ": " ++ r.message⟩]

/-- What is said of the surface of an equation: that no point of it is finite, or else that it is flat. -/
inductive SaidOfSurface (e : Equation) : List Diagnosis → Prop where
  | missing (h : e.mesh? = none) : SaidOfSurface e []
  | undefined {m : Mesh Float} (h : e.mesh? = some m) (hf : ∀ k, m.isFinite k = false) :
    SaidOfSurface e [⟨"W02", e.title ++ " has no finite sample in the domain"⟩]
  | flat {m : Mesh Float} {k : Nat} (h : e.mesh? = some m) (hf : m.isFinite k = true)
    (hz : (m.zMin == m.zMax) = true) :
    SaidOfSurface e [⟨"W03", e.title ++ " is flat at z=" ++ Number.sixDigits m.zMin⟩]
  | raised {m : Mesh Float} {k : Nat} (h : e.mesh? = some m) (hf : m.isFinite k = true)
    (hz : (m.zMin == m.zMax) = false) : SaidOfSurface e []

/-- What is said of equations, one after the other. -/
inductive Said : List Equation → List Diagnosis → Prop where
  | nil : Said [] []
  | cons {e : Equation} {es : List Equation} {ofText ofSurface rest : List Diagnosis}
    (ht : e.SaidOfText ofText) (hs : e.SaidOfSurface ofSurface) (h : Said es rest) :
    Said (e :: es) (ofText ++ ofSurface ++ rest)

theorem hasFinite_iff {m : Mesh Float} : m.hasFinite = true ↔ ∃ k, m.isFinite k = true := by
  rw [Mesh.hasFinite, Array.any_eq_true]
  constructor
  · rintro ⟨k, hk, h⟩
    exact ⟨k, by rw [Mesh.isFinite, Array.getElem?_eq_getElem hk]; exact h⟩
  · rintro ⟨k, h⟩
    rw [Mesh.isFinite] at h
    cases hk : m.finite[k]? with
    | none =>
      rw [hk] at h
      cases h
    | some b =>
      obtain ⟨hlt, hb⟩ := Array.getElem?_eq_some_iff.1 hk
      rw [hk] at h
      exact ⟨k, hlt, by rw [hb]; exact h⟩

theorem saidOfText (e : Equation) : e.SaidOfText (e.rejection.map e.rejected).toList := by
  cases h : e.rejection with
  | none => exact .accepted h
  | some r => exact .refused h

theorem saidOfSurface (e : Equation) : e.SaidOfSurface (e.mesh?.bind e.degenerate?).toList := by
  cases h : e.mesh? with
  | none => exact .missing h
  | some m =>
    rw [Option.bind_some, degenerate?]
    by_cases hf : m.hasFinite = true
    · obtain ⟨k, hk⟩ := hasFinite_iff.1 hf
      rw [hf, Bool.not_true, if_neg Bool.false_ne_true]
      by_cases hz : (m.zMin == m.zMax) = true
      · rw [if_pos hz]
        exact .flat h hk hz
      · rw [if_neg hz]
        exact .raised h hk (Bool.eq_false_iff.2 hz)
    · rw [Bool.eq_false_iff.2 hf, Bool.not_false, if_pos rfl]
      refine .undefined h fun k => Bool.eq_false_iff.2 fun hk => hf ?_
      exact hasFinite_iff.2 ⟨k, hk⟩

theorem said_flatMap (es : List Equation) : Said es (es.flatMap diagnoses) := by
  induction es with
  | nil => exact .nil
  | cons e es ih => exact .cons e.saidOfText e.saidOfSurface ih

theorem SaidOfText.eq {ds : List Diagnosis} (h : e.SaidOfText ds) :
    ds = (e.rejection.map e.rejected).toList := by
  cases h with
  | accepted h => rw [h]; rfl
  | refused h => rw [h]; rfl

theorem SaidOfSurface.eq {ds : List Diagnosis} (h : e.SaidOfSurface ds) :
    ds = (e.mesh?.bind e.degenerate?).toList := by
  cases h with
  | missing h => rw [h]; rfl
  | undefined h hf =>
    have hm : ¬ Mesh.hasFinite _ = true := fun hm => by
      obtain ⟨k, hk⟩ := hasFinite_iff.1 hm
      exact Bool.false_ne_true ((hf k).symm.trans hk)
    rw [h, Option.bind_some, degenerate?, Bool.eq_false_iff.2 hm]
    rfl
  | flat h hf hz =>
    rw [h, Option.bind_some, degenerate?, hasFinite_iff.2 ⟨_, hf⟩, if_pos hz]
    rfl
  | raised h hf hz =>
    rw [h, Option.bind_some, degenerate?, hasFinite_iff.2 ⟨_, hf⟩, hz]
    rfl

/-- There is one list of diagnoses. -/
theorem Said.eq_flatMap {es : List Equation} {ds : List Diagnosis} (h : Said es ds) :
    ds = es.flatMap diagnoses := by
  induction h with
  | nil => rfl
  | cons ht hs _ ih => rw [ht.eq, hs.eq, ih, List.flatMap_cons, diagnoses]

end Equation

/-! ### Reports -/

namespace Workspace

/-- A report leaves the workspace as it is. It goes through what is said of the equations, shows the warnings up
to the first diagnosis that the policy raises, and raises that one if there is one. A suppressed code is neither
shown nor raised, and without a policy all is as under the empty one. -/
theorem report_reported (w : Workspace) :
    (∀ policy : Option Policy, ∃ ds r, ((report policy).run w).run = (r, w) ∧
      (∀ ds', Equation.Said w.equations ds' ↔ ds' = ds) ∧
      Policy.Reported (policy.getD ⟨[], []⟩) ds r ∧
      ∀ d : Diagnosis, d.code ∈ (policy.getD ⟨[], []⟩).suppressed → d ∉ r.warnings ∧ r.raised ≠ some d) ∧
    (report none).run w = (report (some ⟨[], []⟩)).run w := by
  refine ⟨fun policy => ?_, rfl⟩
  have hr := (policy.getD Policy.empty).reported_reportUnder w.diagnoses
  refine ⟨w.diagnoses, _, rfl, fun ds => ⟨?_, ?_⟩, hr, fun d hd => hr.not_mem_of_suppressed hd⟩
  · exact Equation.Said.eq_flatMap
  · rintro rfl
    exact Equation.said_flatMap w.equations

end Workspace

end Relief
