import Mathlib.Data.List.Chain
import Relief.Shorthand.Names

/-!
The first stage of shorthand leaves a text alone that has no glyphs and single spaces between words.
-/
namespace Relief.Shorthand

open Relief.Text

/-- A text without glyphs and with no other blanks than single spaces, none at its ends. -/
structure Tidy (cs : List Char) : Prop where
  plain : ∀ c ∈ cs, glyphs.lookup c = none
  space : ∀ c ∈ cs, isBlank c = true → c = ' '
  single : cs.IsChain fun a b => ¬ (isBlank a = true ∧ isBlank b = true)
  first : ∀ c ∈ cs.head?, isBlank c = false
  last : ∀ c ∈ cs.getLast?, isBlank c = false

variable {cs : List Char} {c d : Char}

theorem lookup_glyphs (h : c.toNat < 128) : glyphs.lookup c = none := by
  rw [List.lookup_eq_none_iff]
  intro g hg
  have hn : ∀ g ∈ glyphs, 128 ≤ g.1.toNat := by decide
  have := hn g hg
  rw [bne_iff_ne]
  rintro rfl
  omega

theorem glyphs_ascii : ∀ g ∈ glyphs, g.2.toList.all (·.toNat < 128) = true := by
  decide

/-- A character that a glyph stands for is in ASCII, and any other was there before. -/
theorem mem_spellOut (h : c ∈ spellOut d) : c.toNat < 128 ∨ c = d ∧ glyphs.lookup d = none := by
  rw [spellOut] at h
  split at h
  · next text hg =>
    obtain ⟨l, l', he, -⟩ := List.lookup_eq_some_iff.1 hg
    have ha := glyphs_ascii (d, text) (he ▸ List.mem_append_right l List.mem_cons_self)
    exact .inl (of_decide_eq_true (List.all_eq_true.1 ha c h))
  · next hg => exact .inr ⟨List.mem_singleton.1 h, hg⟩

theorem flatMap_spellOut (h : ∀ c ∈ cs, glyphs.lookup c = none) : cs.flatMap spellOut = cs := by
  induction cs with
  | nil => rfl
  | cons c cs ih =>
    rw [List.flatMap_cons, ih fun d hd => h d (List.mem_cons_of_mem _ hd), spellOut,
      h c List.mem_cons_self]
    rfl

theorem collapse_eq_self (hs : ∀ c ∈ cs, isBlank c = true → c = ' ')
    (hc : cs.IsChain fun a b => ¬ (isBlank a = true ∧ isBlank b = true)) : collapse cs = cs := by
  induction cs with
  | nil => rfl
  | cons c cs ih =>
    have ih := ih (fun d hd => hs d (List.mem_cons_of_mem _ hd)) hc.of_cons
    rw [collapse.eq_def]
    dsimp only
    by_cases hb : isBlank c = true
    · obtain rfl := hs c List.mem_cons_self hb
      cases cs with
      | nil => rfl
      | cons d cs =>
        have hd : ¬ isBlank d = true := fun hd => (List.isChain_cons_cons.1 hc).1 ⟨hb, hd⟩
        simp only [hb, hd, if_true, ih]
        rfl
    · rw [if_neg hb, ih]

theorem dropWhile_isBlank (h : ∀ c ∈ cs.head?, isBlank c = false) : cs.dropWhile isBlank = cs := by
  cases cs with
  | nil => rfl
  | cons c cs => rw [List.dropWhile_cons_of_neg (by simp [h c rfl])]

theorem trim_eq_self (hf : ∀ c ∈ cs.head?, isBlank c = false)
    (hl : ∀ c ∈ cs.getLast?, isBlank c = false) : trim cs = cs := by
  rw [trim, dropWhile_isBlank hf, dropWhile_isBlank, List.reverse_reverse]
  rwa [List.head?_reverse]

theorem normalize_of_tidy (h : Tidy cs) : normalize cs = cs := by
  rw [normalize, flatMap_spellOut h.plain, collapse_eq_self h.space h.single,
    trim_eq_self h.first h.last]

end Relief.Shorthand
