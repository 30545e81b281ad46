import Mathlib
import Relief.Proofs.Mesh.Pointwise
import Relief.Proofs.Shorthand.Foreign

/-!
How the compilation of a text ends. A text is accepted or refused, unless it has a function's name with a
foreign letter or a tree that is too deep to be evaluated.
-/
namespace Relief.Evaluator

open Relief.Shorthand

variable {f : Evaluator} {source : String} {c : Crash}

theorem build_eq (source : String) : build source =
    match expand source with
    | .error s => .error (.crashed (.foreignSpelling s))
    | .ok expanded =>
      if expanded.isEmpty then .error (.rejected (.grammar .empty))
      else
        match Parser.parse expanded with
        | .error e => .error (.rejected (.grammar e))
        | .ok tree => .ok ⟨tree, source, expanded⟩ := by
  unfold build
  cases expand source with
  | error s => rfl
  | ok expanded =>
    dsimp only
    cases expanded.isEmpty with
    | true => rfl
    | false =>
      simp only [Bool.false_eq_true, if_false]
      cases Parser.parse expanded <;> rfl

theorem expand_of_build (h : build source = .ok f) : expand source = .ok f.expanded := by
  rw [build_eq] at h
  split at h
  · cases h
  · next hs =>
    split at h
    · cases h
    · split at h
      · cases h
      · cases h
        exact hs

theorem parse_of_build (h : build source = .ok f) : Parser.parse f.expanded = .ok f.tree := by
  rw [build_eq] at h
  split at h
  · cases h
  · split at h
    · cases h
    · split at h
      · cases h
      · next hp =>
        cases h
        exact hp

theorem expand_of_build_crashed (h : build source = .error (.crashed c)) :
    ∃ s, c = .foreignSpelling s ∧ expand source = .error s := by
  rw [build_eq] at h
  split at h
  · next s hs =>
    cases h
    exact ⟨s, rfl, hs⟩
  · split at h
    · cases h
    · split at h <;> cases h

theorem wellFormed_of_build (h : build source = .ok f) : f.tree.WellFormed Grammar.IsUnsigned :=
  wellFormed_of_parse (parse_of_build h)

/-! ### Probes -/

theorem finiteCount_eq_ok (h : build source = .ok f) (hd : f.tree.height ≤ Expr.maxDepth)
    (probes : List (Float × Float)) : ∃ n, f.finiteCount probes = .ok n := by
  rw [finiteCount]
  generalize 0 = n
  induction probes generalizing n with
  | nil => exact ⟨n, rfl⟩
  | cons p probes ih =>
    have hv : f.call p.1 p.2 = .ok _ := Expr.eval_eq_ok (wellFormed_of_build h) ⟨p.1, p.2⟩ hd
    obtain ⟨m, hm⟩ := ih (if (f.tree.valueAt ⟨p.1, p.2⟩).isFinite then n + 1 else n)
    refine ⟨m, ?_⟩
    rw [List.foldlM_cons, ← hm]
    simp only [hv]
    rfl

theorem finiteCount_eq_tooDeep (h : build source = .ok f) (hd : Expr.maxDepth < f.tree.height)
    {p : Float × Float} {probes : List (Float × Float)} :
    f.finiteCount (p :: probes) = .error .tooDeep := by
  have hv : f.call p.1 p.2 = .error .tooDeep :=
    Expr.eval_eq_tooDeep (wellFormed_of_build h) ⟨p.1, p.2⟩ hd
  rw [finiteCount, List.foldlM_cons]
  simp only [hv]
  rfl

/-! ### Outcomes -/

/-- A text that is an expression is accepted or has no value at any probe, unless its tree is too deep. -/
theorem compile_of_build (h : build source = .ok f) :
    (f.tree.height ≤ Expr.maxDepth ∧
      (compile source = .ok f ∨ compile source = .error (.rejected .noValidSample))) ∨
    Expr.maxDepth < f.tree.height ∧ compile source = .error (.crashed (.fault .tooDeep)) := by
  obtain hd | hd := Nat.lt_or_ge Expr.maxDepth f.tree.height
  · refine .inr ⟨hd, ?_⟩
    simp only [compile, compileAt, h, bind, Except.bind, probePoints, finiteCount_eq_tooDeep h hd]
    rfl
  · obtain ⟨n, hn⟩ := finiteCount_eq_ok h hd probePoints
    refine .inl ⟨hd, ?_⟩
    simp only [compile, compileAt, h, bind, Except.bind, hn]
    cases n with
    | zero => exact .inr rfl
    | succ n => exact .inl rfl

theorem compile_of_build_error {e : CompileError} (h : build source = .error e) :
    compile source = .error e := by
  rw [compile, compileAt, h]
  rfl

/-- What keeps a text from being accepted or refused. -/
inductive Hinders (source : String) : Crash → Prop where
  | foreign {s : ForeignSpelling} : expand source = .error s → IsForeign s.word.toList →
    (∃ c ∈ source.toList, c ∈ foreignLetters) → Hinders source (.foreignSpelling s)
  | deep {f : Evaluator} : build source = .ok f → Expr.maxDepth < f.tree.height →
    Hinders source (.fault .tooDeep)

theorem compile_eq_crashed_iff : compile source = .error (.crashed c) ↔ Hinders source c := by
  constructor
  · intro h
    cases hb : build source with
    | ok f =>
      obtain ⟨-, hc | hc⟩ | ⟨hd, hc⟩ := compile_of_build hb <;> rw [hc] at h <;> cases h
      exact .deep hb hd
    | error e =>
      rw [compile_of_build_error hb] at h
      cases h
      obtain ⟨s, rfl, hs⟩ := expand_of_build_crashed hb
      obtain ⟨hf, hl⟩ := expand_eq_error hs
      exact .foreign hs hf hl
  · rintro (⟨hs, -, -⟩ | ⟨hb, hd⟩)
    · apply compile_of_build_error
      rw [build_eq, hs]
    · obtain ⟨hd', -⟩ | ⟨-, hc⟩ := compile_of_build hb
      · exact absurd hd' (Nat.not_le_of_lt hd)
      · exact hc

theorem compile_variable : ∃ f, compile "x" = .ok f := by
  have hc : (compile "x").toOption.isSome = true := by
    decide +kernel
  cases h : compile "x" with
  | ok f => exact ⟨f, rfl⟩
  | error e =>
    rw [h] at hc
    cases hc

/-- A sum without its second term is refused. -/
theorem compile_sum : ∃ r, compile "x+" = .error (.rejected r) := by
  cases h : compile "x+" with
  | ok f =>
    have hc : (compile "x+").toOption.isNone = true := by
      decide +kernel
    rw [h] at hc
    cases hc
  | error e =>
    cases e with
    | rejected r => exact ⟨r, rfl⟩
    | crashed c =>
      obtain ⟨-, -, hl⟩ | ⟨hb, -⟩ := compile_eq_crashed_iff.1 h
      · exact absurd hl (by simp [foreignLetters])
      · have hn : (build "x+").toOption.isNone = true := by
          decide +kernel
        rw [hb] at hn
        cases hn

theorem build_of_compile (h : compile source = .ok f) :
    build source = .ok f ∧ f.tree.height ≤ Expr.maxDepth := by
  cases hb : build source with
  | ok g =>
    obtain ⟨hd, hc | hc⟩ | ⟨-, hc⟩ := compile_of_build hb <;> rw [hc] at h <;> cases h
    exact ⟨rfl, hd⟩
  | error e =>
    rw [compile_of_build_error hb] at h
    cases h

/-- What is accepted can be drawn over every domain. -/
theorem ofEvaluator_of_compile (h : compile source = .ok f) (d : Domain Float) :
    ∃ m, Mesh.ofEvaluator f d = .ok m := by
  obtain ⟨hb, hd⟩ := build_of_compile h
  exact ⟨_, Mesh.ofEvaluator_points (wellFormed_of_build hb) hd d⟩

end Relief.Evaluator
