import Relief.Parser
import Relief.Proofs.Grammar.Depth
import Relief.Proofs.Grammar.Descent
import Relief.Proofs.Scan.Munch

/-!
The parser recognizes the grammar: it finds a tree exactly for the texts whose tokens are derived, it
is the tree of the only derivation, and every other text is refused.
-/
namespace Relief.Grammar

open Relief.Token Relief.Parser Relief.Scan

/-- A derivation of a text: of the tokens that maximal munch splits it into, up to their end. -/
structure Derives (text : String) (d : Derivation .additive) : Prop where
  tokens : ∃ ts, Munches 0 text.toList ts ∧ kinds ts = d.yield ++ [.finish]
  allowed : d.Allowed

theorem parseWithin_eq_ok_iff {levels : Nat} {text : String} {t : Expr} :
    parseWithin levels text = .ok t ↔
      ∃ ts, Munches 0 text.toList ts ∧ expression levels ts = .ok t := by
  simp only [parseWithin, bind_eq_ok_iff, ← scanFrom_eq_ok_iff, scan]
  refine exists_congr fun ts => and_congr_left fun _ => ?_
  cases scanFrom 0 text.toList with
  | error e => simp [Except.mapError]
  | ok ts' => simp [Except.mapError]

theorem parseWithin_of_derives {levels : Nat} {text : String} {d : Derivation .additive}
    (h : Derives text d) (hl : d.levels ≤ levels) : parseWithin levels text = .ok d.tree := by
  obtain ⟨⟨ts, hm, hk⟩, ha⟩ := h
  obtain ⟨pre, rest, rfl, hp, hr⟩ := List.map_eq_append_iff.1 hk
  obtain ⟨t, rest, rfl, ht, hr⟩ := List.map_eq_cons_iff.1 hr
  obtain rfl := List.map_eq_nil_iff.1 hr
  have hf : Follows .additive (kinds [t]) := ⟨.finish, [], by simp [ht], rfl⟩
  have hd := d.reads levels pre [t] hp hl ha hf
  simp only [Reads] at hd
  refine parseWithin_eq_ok_iff.2 ⟨_, hm, ?_⟩
  simp only [expression, hd, bind, Except.bind, ht]
  rfl

theorem derives_of_parseWithin {levels : Nat} {text : String} {t : Expr}
    (h : parseWithin levels text = .ok t) :
    ∃ d, Derives text d ∧ d.levels ≤ levels ∧ d.tree = t := by
  obtain ⟨ts, hm, he⟩ := parseWithin_eq_ok_iff.1 h
  obtain ⟨⟨e, rest⟩, ha, hc⟩ := bind_eq_ok_iff.1 he
  cases rest with
  | nil => cases hc
  | cons u rest =>
    dsimp only at hc
    split at hc
    · next hu =>
      cases hc
      obtain ⟨d, rfl, hall, hl, pre, rfl, hp⟩ := (derivedWithin levels).additive _ _ _ ha
      obtain rfl := hm.rest_nil hu
      refine ⟨d, ⟨⟨_, hm, ?_⟩, hall⟩, hl, rfl⟩
      simp [← hp, hu]
    · cases hc

/-- No text has two derivations. -/
theorem Derives.unique {text : String} {d d' : Derivation .additive} (h : Derives text d)
    (h' : Derives text d') : d = d' := by
  obtain ⟨ts, hm, hk⟩ := h.tokens
  obtain ⟨ts', hm', hk'⟩ := h'.tokens
  have hs := (scanFrom_eq_ok_iff.2 hm).symm.trans (scanFrom_eq_ok_iff.2 hm')
  obtain rfl := Except.ok.inj hs
  have hf : Follows .additive [Kind.finish] := ⟨_, [], rfl, rfl⟩
  exact (d.unambiguous d' _ _ hf hf (hk.symm.trans hk')).1

theorem parseWithin_of_levels_lt {levels : Nat} {text : String} {d : Derivation .additive}
    (h : Derives text d) (hl : levels < d.levels) :
    parseWithin levels text = refuse .nestedTooDeeply := by
  obtain hr | hr := parseWithin_agrees text (Nat.le_of_lt hl)
  · exact hr
  · rw [parseWithin_of_derives h (Nat.le_refl _)] at hr
    obtain ⟨d', h', hl', -⟩ := derives_of_parseWithin hr
    obtain rfl := h.unique h'
    exact absurd hl (Nat.not_lt.2 hl')

theorem parseWithin_maxLevels (text : String) :
    parseWithin maxLevels text = (parse text).mapError .grammar := by
  unfold parse
  split
  · next h => exact h
  · next h => exact h
  · next h =>
    obtain ⟨g, hg⟩ := parseWithin_safe h
    cases hg
  · next h =>
    obtain ⟨g, hg⟩ := parseWithin_safe h
    cases hg

/-- The parser is the grammar's, with a limit on nesting. A tree is found exactly where there is a
derivation within the limit, and it is the tree of that derivation. There is no second derivation. A
text without a tree is refused, never read past its end or asked for a function that is not known,
and a derivation beyond the limit is refused for that. -/
theorem parse_recognizes (text : String) :
    parseWithin maxLevels text = (parse text).mapError .grammar ∧
    (∀ d d', Derives text d → Derives text d' → d = d') ∧
    (∀ levels t, parseWithin levels text = .ok t ↔
      ∃ d, Derives text d ∧ d.levels ≤ levels ∧ d.tree = t) ∧
    (∀ levels d, Derives text d → levels < d.levels →
      parseWithin levels text = .error (.grammar .nestedTooDeeply)) ∧
    ∀ levels, (∃ t, parseWithin levels text = .ok t) ∨
      ∃ e, parseWithin levels text = .error (.grammar e) := by
  refine ⟨parseWithin_maxLevels text, fun d d' h h' => h.unique h', fun levels t => ⟨?_, ?_⟩,
    fun levels d h hl => parseWithin_of_levels_lt h hl, fun levels => ?_⟩
  · exact derives_of_parseWithin
  · rintro ⟨d, h, hl, rfl⟩
    exact parseWithin_of_derives h hl
  · cases hr : parseWithin levels text with
    | ok t => exact .inl ⟨t, rfl⟩
    | error e =>
      obtain ⟨g, rfl⟩ := parseWithin_safe hr
      exact .inr ⟨g, rfl⟩

end Relief.Grammar
