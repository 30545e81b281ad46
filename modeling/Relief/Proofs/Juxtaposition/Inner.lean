import Mathlib
import Relief.Proofs.Evaluator.Compile
import Relief.Proofs.Scan.Join
import Relief.Proofs.Shorthand.Wall

/-!
A text that is an expression by itself is read as the same expression between parentheses and commas.
-/
namespace Relief.Juxtaposition

open Relief.Token Relief.Text Relief.Scan Relief.Grammar Relief.Parser Relief.Shorthand

variable {limit limit' : Nat} {s : String} {t : Expr} {ts : List Expr} {u v : List Char}
  {ks ks' : List Kind}

/-! ### Accepted texts -/

/-- A text that is built to a tree, and needs at most so many levels. -/
structure Accepted (limit : Nat) (source : String) (t : Expr) : Prop where
  built : ∃ f, Evaluator.build source = .ok f ∧ f.tree = t ∧ parseWithin limit f.expanded = .ok t

/-- Within the parser's limit, every text that is built is accepted. -/
theorem accepted_maxLevels :
    Accepted maxLevels s t ↔ ∃ f, Evaluator.build s = .ok f ∧ f.tree = t := by
  constructor
  · rintro ⟨f, hb, ht, -⟩
    exact ⟨f, hb, ht⟩
  · rintro ⟨f, hb, rfl⟩
    refine ⟨f, hb, rfl, ?_⟩
    rw [parseWithin_maxLevels, Evaluator.parse_of_build hb]
    rfl

/-- The texts of one or more arguments with commas between them, and their trees. -/
inductive Arguments (limit : Nat) : List Char → List Expr → Prop where
  | one {s : String} {t : Expr} : Accepted limit s t → Arguments limit s.toList [t]
  | more {s : String} {t : Expr} {v : List Char} {ts : List Expr} : Accepted limit s t →
    Arguments limit v ts → Arguments limit (s.toList ++ ',' :: v) (t :: ts)

/-! ### Between marks -/

/-- What becomes of a text without glyphs that is not trimmed, and how it is read. -/
def ReadsInside (u q : List Char) (ks : List Kind) : Prop :=
  qualifyNames (insertProducts (collapse u)) = .ok q ∧ Lexes q ks

theorem expand_ofList (cs : List Char) : expand (String.ofList cs) =
    (qualifyNames (insertProducts (normalize cs))).map String.ofList := by
  simp only [expand, stages, resolveText, multiplyText, normalizeText, String.toList_ofList]
  cases qualifyNames (insertProducts (normalize cs)) <;> rfl

theorem qualifyNames_margins {l r q : List Char} (hl : IsMargin l) (hr : IsMargin r)
    (h : qualifyNames u = .ok q) : qualifyNames (l ++ u ++ r) = .ok (l ++ q ++ r) := by
  have hs : continuesName ' ' = false := by decide
  have hright : qualifyNames (u ++ r) = .ok (q ++ r) := by
    obtain rfl | rfl := hr
    · rwa [List.append_nil, List.append_nil]
    · exact qualifyNames_wall hs h rfl
  rw [List.append_assoc, List.append_assoc]
  obtain rfl | rfl := hl
  · exact hright
  · exact @qualifyNames_wall [] [] _ _ _ hs rfl hright

theorem lexes_margin {m : List Char} (h : IsMargin m) : Lexes m [] := by
  obtain rfl | rfl := h
  · exact .nil
  · exact .blank rfl .nil

theorem lexes_margins {l r : List Char} (hl : IsMargin l) (hr : IsMargin r) (h : Lexes u ks) :
    Lexes (l ++ u ++ r) ks := by
  have ha : ∀ b, Apart ' ' b := fun b => apart_of_mark (by decide) (.inl (by decide))
  have hlu : Lexes (l ++ u) ks := (lexes_margin hl).append h fun a hal b _ => by
    obtain rfl | rfl := hl
    · cases hal
    · cases hal
      exact ha b
  have hlur := hlu.append (lexes_margin hr) fun a _ b hbr => by
    obtain rfl | rfl := hr
    · cases hbr
    · cases hbr
      exact (ha a).symm
  rwa [List.append_nil] at hlur

theorem Accepted.readsInside (h : Accepted limit s t) :
    ∃ q, ∃ d : Derivation .additive, ReadsInside (s.toList.flatMap spellOut) q d.yield ∧ d.Allowed ∧
      d.tree = t ∧ d.levels ≤ limit := by
  obtain ⟨f, hb, -, hp⟩ := h.built
  obtain ⟨d, hd, hlevels, ht⟩ := derives_of_parseWithin hp
  obtain ⟨hlex, hallowed⟩ := derives_iff.1 hd
  have he := expand_ofList s.toList
  rw [String.ofList_toList, Evaluator.expand_of_build hb] at he
  obtain ⟨q, hq, he⟩ : ∃ q, qualifyNames (insertProducts (normalize s.toList)) = .ok q ∧
      f.expanded.toList = q := by
    cases hq : qualifyNames (insertProducts (normalize s.toList)) with
    | error e =>
      rw [hq] at he
      cases he
    | ok q =>
      rw [hq] at he
      exact ⟨q, rfl, by rw [Except.ok.inj he, String.toList_ofList]⟩
  obtain ⟨l, r, hl, hr, hc⟩ := exists_margins (s.toList.flatMap spellOut)
  refine ⟨l ++ q ++ r, d, ⟨?_, lexes_margins hl hr (he ▸ hlex)⟩, hallowed, ht, hlevels⟩
  rw [hc, insertProducts_margins hl hr]
  exact qualifyNames_margins hl hr hq

theorem readsInside_comma {q q' : List Char} (h : ReadsInside u q ks) (h' : ReadsInside v q' ks') :
    ReadsInside (u ++ ',' :: v) (q ++ ',' :: q') (ks ++ .comma :: ks') := by
  have hb : isBlank ',' = false := by decide
  refine ⟨?_, .append_mark (by simp [symbols]) (by decide) (fun a _ => .inr (by decide))
    (fun b _ => .inr (by decide)) h.2 h'.2⟩
  rw [collapse_append (fun c hc => by cases hc; exact hb), collapse_cons_of_not_blank hb,
    insertProducts_append_cons (.inl rfl) (.inl rfl)]
  exact qualifyNames_wall (by decide) h.1 h'.1

theorem spellOut_comma (u v : List Char) :
    (u ++ ',' :: v).flatMap spellOut = u.flatMap spellOut ++ ',' :: v.flatMap spellOut := by
  rw [List.flatMap_append, List.flatMap_cons]
  rfl

theorem Arguments.readsInside (h : Arguments limit u ts) :
    ∃ q, ∃ d : Derivation .arguments, ReadsInside (u.flatMap spellOut) q d.yield ∧ d.Allowed ∧
      d.tree = ts ∧ d.levels ≤ limit := by
  have hmore : ∃ q, ∃ a : Derivation .additive, ∃ d : Derivation .moreArguments,
      ReadsInside (u.flatMap spellOut) q (a.yield ++ d.yield) ∧ (a.Allowed ∧ d.Allowed) ∧
        a.tree :: d.tree = ts ∧ max a.levels d.levels ≤ limit := by
    induction h with
    | one h =>
      obtain ⟨q, a, hr, ha, rfl, hl⟩ := h.readsInside
      refine ⟨q, a, .endArguments, ?_, ⟨ha, trivial⟩, rfl, by simpa [Derivation.levels] using hl⟩
      simpa [Derivation.yield] using hr
    | @more s t v ts h _ ih =>
      obtain ⟨q, a, hr, ha, rfl, hl⟩ := h.readsInside
      obtain ⟨q', a', d, hr', ha', rfl, hl'⟩ := ih
      refine ⟨q ++ ',' :: q', a, .argument a' d, ?_, ⟨ha, ha'⟩, rfl, Nat.max_le.2 ⟨hl, hl'⟩⟩
      rw [spellOut_comma]
      exact readsInside_comma hr hr'
  obtain ⟨q, a, d, hr, ha, ht, hl⟩ := hmore
  exact ⟨q, .someArguments a d, hr, ha, ht, hl⟩

end Relief.Juxtaposition
