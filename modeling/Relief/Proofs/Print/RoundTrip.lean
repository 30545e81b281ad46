import Mathlib
import Relief.Evaluator
import Relief.Proofs.Grammar.Tree
import Relief.Proofs.Print.Grouping
import Relief.Proofs.Print.Scan

/-!
Every tree of finite numbers that are not negative is what its text is compiled to, as far as the
limits on depth allow.
-/
namespace Relief.Expr

open Relief.Token Relief.Number Relief.Scan Relief.Grammar Relief.Parser Piece

variable {e : Expr}

/-! ### Shorthand -/

/-- A printed text is its own shorthand, with its names qualified. -/
theorem expand_phrase {ps : List Piece} (h : Phrase ps) :
    Shorthand.expand (String.ofList (textOf ps)) = .ok (String.ofList (spelledOutOf ps)) := by
  have hn : Shorthand.normalizeText (String.ofList (textOf ps)) = String.ofList (textOf ps) := by
    rw [Shorthand.normalizeText, String.toList_ofList, normalize_phrase h]
  have hm : Shorthand.multiplyText (String.ofList (textOf ps)) = String.ofList (textOf ps) := by
    rw [Shorthand.multiplyText, String.toList_ofList, insertProducts_phrase h]
  have hr : Shorthand.resolveText (String.ofList (textOf ps)) =
      .ok (String.ofList (spelledOutOf ps)) := by
    rw [Shorthand.resolveText, String.toList_ofList, qualifyNames_phrase h]
    rfl
  rw [Shorthand.expand, Shorthand.stages, hn, hm, hr]
  rfl

theorem isEmpty_phrase {ps : List Piece} (h : Phrase ps) :
    (String.ofList (spelledOutOf ps)).isEmpty = false := by
  obtain ⟨p, ps, rfl⟩ := List.exists_cons_of_ne_nil h.ne_nil
  have hp := spelledOut_ne_nil (h.proper p List.mem_cons_self)
  rw [← Bool.not_eq_true, String.isEmpty_iff, ← String.toList_inj, String.toList_ofList]
  simp [spelledOutOf, hp]

/-! ### Trees without negative zeros -/

/-- A text that is compiled to a tree, on so many levels. -/
structure CompiledAs (text expanded : String) (levels : Nat) (t : Expr) : Prop where
  spelledOut : Shorthand.expand text = .ok expanded
  parsed : ∀ limit, parseWithin limit expanded =
    if levels ≤ limit then .ok t else .error (.grammar .nestedTooDeeply)
  built : Evaluator.build text =
    if levels ≤ maxLevels then .ok ⟨t, text, expanded⟩
    else .error (.rejected (.grammar .nestedTooDeeply))

theorem compiledAs_of_derives {text expanded : String} {d : Derivation .additive}
    (hs : Shorthand.expand text = .ok expanded) (he : expanded.isEmpty = false)
    (h : Derives expanded d) : CompiledAs text expanded d.levels d.tree := by
  have hp : ∀ limit, parseWithin limit expanded =
      if d.levels ≤ limit then .ok d.tree else .error (.grammar .nestedTooDeeply) := by
    intro limit
    split
    · next hle => exact parseWithin_of_derives h hle
    · next hle => exact parseWithin_of_levels_lt h (Nat.lt_of_not_le hle)
  refine ⟨hs, hp, ?_⟩
  have hmax := (parseWithin_maxLevels expanded).symm.trans (hp maxLevels)
  unfold Evaluator.build
  rw [hs]
  simp only [he, Bool.false_eq_true, if_false]
  cases hparse : parse expanded with
  | ok t =>
    rw [hparse] at hmax
    split at hmax
    · next hle =>
      cases hmax
      rw [if_pos hle]
      rfl
    · cases hmax
  | error g =>
    rw [hparse] at hmax
    split at hmax
    · cases hmax
    · next hle =>
      cases hmax
      rw [if_neg hle]
      rfl

theorem derives_pieces (h : WellFormed IsMagnitude e) :
    ∃ d, Derives (String.ofList (spelledOutOf e.pieces)) d ∧ d.tree = e ∧
      d.levels + 2 ≤ 7 * e.depth := by
  obtain ⟨n, hn, hg⟩ := grouped_pieces h
  obtain ⟨d, hy, ht, ha, hl⟩ := hg.additive
  obtain ⟨ts, hm, hk⟩ := munches_phrase (phrase_pieces h)
  refine ⟨d, ⟨⟨ts, ?_, ?_⟩, ha⟩, ht, by omega⟩
  · rwa [String.toList_ofList]
  · rw [hy]
    exact hk

theorem compiledAs_pieces (h : WellFormed IsMagnitude e) :
    ∃ expanded levels, levels + 2 ≤ 7 * e.depth ∧
      CompiledAs (String.ofList (textOf e.pieces)) expanded levels e := by
  obtain ⟨d, hd, rfl, hl⟩ := derives_pieces h
  have hp := phrase_pieces h
  exact ⟨_, d.levels, hl, compiledAs_of_derives (expand_phrase hp) (isEmpty_phrase hp) hd⟩

/-! ### Trees with negative zeros -/

theorem numText_dropZeroSign (v : Float) : numText (dropZeroSign v) = numText v := by
  have hz : ∀ v ∈ [(0 : Float), -0], constants.find? (·.2 == v) = none ∧ v.abs < wholeLimit := by
    decide
  by_cases h : v = -0
  · subst h
    have h1 := hz 0 List.mem_cons_self
    have h2 := hz (-0) (List.mem_cons_of_mem _ List.mem_cons_self)
    exact (numText_of_zero rfl h1.1 h1.2).trans (numText_of_zero rfl h2.1 h2.2).symm
  · rw [dropZeroSign_eq_self h]

/-! ### The round trip -/

/-- Finite numbers that are not negative. A negative zero is one of them. -/
def IsAmount (v : Float) : Prop := v.isFinite = true ∧ 0 ≤ v

/-- A tree is printed, if it is not too deep, and its text is compiled to a tree, on at most seven levels
for each of its own. -/
def ReadsBackAs (e e' : Expr) : Prop :=
  ∃ text expanded levels,
    (∀ limit, e.textWithin limit = if e.depth ≤ limit then .ok text else .error .tooDeep) ∧
    levels + 2 ≤ 7 * e.depth ∧ CompiledAs text expanded levels e'

theorem readsBackAs_self (h : WellFormed IsMagnitude e) : ReadsBackAs e e := by
  obtain ⟨expanded, levels, hl, hc⟩ := compiledAs_pieces h
  exact ⟨_, expanded, levels, textWithin_eq h, hl, hc⟩

/-- A negative zero is printed as zero. -/
theorem readsBackAs_dropZeroSign (h : WellFormed IsAmount e) :
    ReadsBackAs e (e.mapNumbers dropZeroSign) := by
  have hm : WellFormed IsMagnitude (e.mapNumbers dropZeroSign) :=
    wellFormed_mapNumbers (fun v hv => isMagnitude_dropZeroSign hv.1 hv.2) h
  obtain ⟨expanded, levels, hl, hc⟩ := compiledAs_pieces hm
  rw [textOf_mapNumbers (fun v _ => numText_dropZeroSign v) h] at hc
  rw [depth_mapNumbers _ h] at hl
  exact ⟨_, expanded, levels, textWithin_eq h, hl, hc⟩

/-- Printing and compiling loses nothing of a tree of finite numbers that are not negative, but for the
sign of a zero, and nothing at all of a tree that the parser finds. The text is refused only where
there are more levels than the parser's limit. -/
theorem build_text :
    (∀ t : Expr, t.WellFormed IsAmount → ReadsBackAs t (t.mapNumbers dropZeroSign)) ∧
    (∀ t : Expr, t.WellFormed (fun v => IsAmount v ∧ v ≠ -0) → ReadsBackAs t t) ∧
    ∀ source t, parse source = .ok t → t.WellFormed (fun v => v.isFinite = true) →
      ReadsBackAs t t := by
  refine ⟨fun t h => readsBackAs_dropZeroSign h, fun t h => ?_, fun source t hs hf => ?_⟩
  · exact readsBackAs_self (h.mono fun v hv => isMagnitude_of_nonneg hv.1.1 hv.1.2 hv.2)
  · have hp : parseWithin maxLevels source = .ok t := by
      rw [parseWithin_maxLevels, hs]
      rfl
    exact readsBackAs_self (((wellFormed_of_parseWithin hp).and hf).mono fun v hv =>
      isMagnitude_of_unsigned hv.2 hv.1)

/-- The round trip of `(x + 0.1)^-max(y, 1e-07)`. -/
theorem build_text_power :
    let t : Expr := .binary "^" (.binary "+" (.var "x") (.num 0.1))
      (.unary "-" (.call "max" [.var "y", .num 1e-7]))
    ∃ text expanded, t.text = .ok text ∧ Evaluator.build text = .ok ⟨t, text, expanded⟩ := by
  intro t
  have hn : ∀ v : Float, v ∈ [0.1, 1e-7] → (v.isFinite = true ∧ 0 ≤ v) ∧ v ≠ -0 := by
    decide +kernel
  have hm : (⟨"max", .fold maximum⟩ : Function) ∈ functions := by
    simp [functions]
  have hargs : ∀ arg ∈ [Expr.var "y", .num 1e-7], WellFormed (fun v => IsAmount v ∧ v ≠ -0) arg := by
    simp only [List.forall_mem_cons]
    exact ⟨.var (by decide), .num (hn _ (by simp)), fun _ h => absurd h List.not_mem_nil⟩
  have ht : t.WellFormed (fun v => IsAmount v ∧ v ≠ -0) :=
    .binary (by decide) (.binary (by decide) (.var (by decide)) (.num (hn _ (by simp))))
      (.unary (by decide) (.call hm (by decide) hargs))
  have hd : t.depth = 5 := by
    simp [t, depth, depthOfAll]
  obtain ⟨text, expanded, levels, hp, hl, hc⟩ := build_text.2.1 t ht
  refine ⟨text, expanded, ?_, ?_⟩
  · rw [Expr.text, hp, hd, if_pos (by decide)]
  · have hmax : maxLevels = 990 := rfl
    rw [hc.built, if_pos (by omega)]

end Relief.Expr
