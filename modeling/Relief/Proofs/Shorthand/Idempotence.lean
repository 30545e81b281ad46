import Mathlib
import Relief.Proofs.Juxtaposition.Inner
import Relief.Proofs.Shorthand.Silence

/-!
Shorthand that is spelled out is not spelled out any further. Each stage leaves alone what it has made,
and no stage makes anything that an earlier one would take up: signs and names bring no glyphs and no
blanks, and at a name that is qualified there is no gap for a sign.
-/
namespace Relief.Shorthand

open Relief.Text Relief.Scan

variable {before before' w w' cs cs' : List Char} {c : Char} {rule : GapRule}

theorem not_isBlank_of_continuesName (h : continuesName c = true) : isBlank c = false := by
  rw [← Bool.not_eq_true]
  intro hb
  rw [continuesName, Bool.or_eq_true, beq_iff_eq] at h
  obtain h | rfl := h
  · obtain ⟨r, hr, h1, h2⟩ := (Ranges.contains_iff _ _).1 hb
    rw [isWordChar] at h
    split at h
    · have ht : ∀ r ∈ blankRanges, r.2 < 33 ∨ 127 < r.1 := by decide
      have := ht r hr
      simp only [Bool.or_eq_true, isAsciiLetter_iff, Bool.and_eq_true, decide_eq_true_eq, beq_iff_eq,
        Char.le_def] at h
      obtain (h | ⟨h, -⟩) | rfl := h
      · omega
      · have : 48 ≤ c.toNat := h
        omega
      · cases hb
    · obtain ⟨s, hs, h3, h4⟩ := (Ranges.contains_iff _ _).1 h
      have ht : ∀ r ∈ blankRanges, ∀ s ∈ alphanumericRanges, r.2 < s.1 ∨ s.2 < r.1 := by
        decide +kernel
      have := ht r hr s hs
      omega
  · cases hb

/-! ### The first stage -/

theorem head?_dropWhile_isBlank (cs : List Char) :
    ∀ c ∈ (cs.dropWhile isBlank).head?, isBlank c = false := by
  intro c hc
  have hn := List.head?_dropWhile_not isBlank cs
  rw [Option.mem_def.1 hc] at hn
  simpa using hn

/-- A trimmed text begins and ends without a blank. -/
theorem trim_ends (cs : List Char) :
    (∀ c ∈ (trim cs).head?, isBlank c = false) ∧ ∀ c ∈ (trim cs).getLast?, isBlank c = false := by
  refine ⟨fun c hc => ?_, fun c hc => ?_⟩
  · obtain ⟨r, hr⟩ := List.dropWhile_suffix (l := (cs.dropWhile isBlank).reverse) isBlank
    have hrev := congrArg List.reverse hr
    rw [List.reverse_append, List.reverse_reverse, ← trim] at hrev
    refine head?_dropWhile_isBlank cs c ?_
    rw [← hrev]
    exact List.mem_head?_append_of_mem_head? hc
  · rw [trim, List.getLast?_reverse] at hc
    exact head?_dropWhile_isBlank _ c hc

theorem lookup_of_mem_spellOut {d : Char} (h : c ∈ spellOut d) : glyphs.lookup c = none := by
  obtain ha | ⟨rfl, hg⟩ := mem_spellOut h
  · exact lookup_glyphs ha
  · exact hg

theorem tidy_normalize (cs : List Char) : Tidy (normalize cs) := by
  have hs := spaced_collapse (cs.flatMap spellOut)
  have hsuf := hs.suffix (List.dropWhile_suffix isBlank)
  have htrim : Spaced (normalize cs) := (hsuf.reverse.suffix (List.dropWhile_suffix _)).reverse
  obtain ⟨hfirst, hlast⟩ := trim_ends (collapse (cs.flatMap spellOut))
  refine ⟨fun c hc => ?_, htrim.space, htrim.single, hfirst, hlast⟩
  obtain rfl | hc := mem_collapse (mem_of_mem_trim hc)
  · decide
  · obtain ⟨d, -, hd⟩ := List.mem_flatMap.1 hc
    exact lookup_of_mem_spellOut hd

theorem normalize_normalize (cs : List Char) : normalize (normalize cs) = normalize cs :=
  normalize_of_tidy (tidy_normalize cs)

/-! ### The second stage -/

theorem quiet_star (before cs : List Char) : Quiet ('*' :: before) cs :=
  quiet_of_not_endsFactor (by simp [endsFactor, isVariable]; decide) cs

/-- Where signs have been put in, no rule matches any more. -/
theorem silent_insertAt (h : SameEnd before before') :
    Silent before' (insertAt productGap before cs) := by
  induction cs generalizing before before' with
  | nil => exact .nil
  | cons c cs ih =>
    have hrule : ∀ rule ∈ gapRules, ∀ b, rule b (c :: insertAt productGap (c :: before) cs) =
        rule b (c :: cs) := fun rule hr b => rule_insertAt (List.Subset.refl _) hr b before
    rw [insertAt]
    by_cases hg : productGap before (c :: cs) = true
    · rw [if_pos hg]
      obtain ⟨r, hr, hm⟩ := List.any_eq_true.1 hg
      have he := endsFactor_of_rule hr hm
      have hletter : before.head?.any isNameLetter = false := by
        cases before with
        | nil => rfl
        | cons d before => exact not_isNameLetter_of_endsFactor he
      exact .cons (quiet_mark (by decide) (by decide) (by decide) (by decide) _ _)
        (.cons (quiet_star _ _) (ih (sameEnd_cons c hletter)))
    · rw [if_neg hg]
      refine .cons (fun rule hr => ?_) (ih (h.cons c))
      rw [hrule rule hr, ← h.rule_eq hr, ← Bool.not_eq_true]
      exact fun ht => hg (productGap_of_rule hr ht)

theorem silent_insertProducts (cs : List Char) : Silent [] (insertProducts cs) := by
  rw [insertProducts_eq]
  exact silent_insertAt (.refl [])

theorem insertProducts_insertProducts (cs : List Char) :
    insertProducts (insertProducts cs) = insertProducts cs :=
  insertProducts_of_silent (silent_insertProducts cs)

/-! ### The third stage -/

theorem qualifyNames_qualifyNames (h : qualifyNames cs = .ok cs') : qualifyNames cs' = .ok cs' :=
  (qualified_iff.2 h).again.qualifyNames_eq

/-! ### No glyphs and no blanks are brought in -/

theorem head?_insertAt (h : ∀ c ∈ cs.head?, isBlank c = false) :
    ∀ c ∈ (insertAt rule before cs).head?, isBlank c = false := by
  cases cs with
  | nil => exact h
  | cons d cs =>
    intro c hc
    rw [insertAt] at hc
    split at hc
    · cases hc
      decide
    · exact h c hc

theorem getLast?_insertAt (cs before : List Char) :
    (insertAt rule before cs).getLast? = cs.getLast? := by
  induction cs generalizing before with
  | nil => rfl
  | cons c cs ih =>
    have hc : (c :: insertAt rule (c :: before) cs).getLast? = (c :: cs).getLast? := by
      rw [List.getLast?_cons, List.getLast?_cons, ih]
    rw [insertAt]
    split
    · rw [List.getLast?_cons_cons, hc]
    · exact hc

theorem Tidy.insertAt (h : Tidy cs) : Tidy (insertAt rule before cs) where
  plain c hc := by
    obtain rfl | hc := mem_insertAt hc
    · decide
    · exact h.plain c hc
  space c hc hb := by
    obtain rfl | hc := mem_insertAt hc
    · cases hb
    · exact h.space c hc hb
  single := by
    have hs := h.single
    clear h
    induction cs generalizing before with
    | nil => exact .nil
    | cons c cs ih =>
      obtain ⟨hn, hs⟩ := List.isChain_cons.1 hs
      have hc : (c :: Shorthand.insertAt rule (c :: before) cs).IsChain
          fun a b => ¬ (isBlank a = true ∧ isBlank b = true) := by
        refine List.isChain_cons.2 ⟨fun d hd => ?_, ih hs⟩
        rintro ⟨hb, hbd⟩
        have hnb := head?_insertAt (fun e he => by simpa [hb] using hn e he) d hd
        rw [hbd] at hnb
        cases hnb
      rw [Shorthand.insertAt]
      split
      · refine List.isChain_cons_cons.2 ⟨?_, hc⟩
        rintro ⟨hb, -⟩
        cases hb
      · exact hc
  first := head?_insertAt h.first
  last := by
    rw [getLast?_insertAt]
    exact h.last

theorem Tidy.insertProducts (h : Tidy cs) : Tidy (insertProducts cs) := by
  rw [insertProducts_eq]
  exact h.insertAt

theorem IsRun.ink (h : IsRun w) : ∀ c ∈ w, isBlank c = false := fun c hc =>
  not_isBlank_of_continuesName (h c hc)

theorem Renamed.mem (h : Renamed w w') (hc : c ∈ w') : glyphs.lookup c = none ∨ c ∈ w := by
  cases h with
  | kept _ => exact .inr hc
  | named _ _ hn _ =>
    rw [qualified, String.toList_append] at hc
    obtain hc | hc := List.mem_append.1 hc
    · have hq : qualifier.toList.all (·.toNat < 128) = true := by decide
      exact .inl (lookup_glyphs (of_decide_eq_true (List.all_eq_true.1 hq c hc)))
    · have hl := isAsciiLetter_iff.1 (letters_qualifiedNames hn c hc)
      exact .inl (lookup_glyphs (by omega))

theorem Renamed.eq_nil_iff (h : Renamed w w') : w' = [] ↔ w = [] := by
  cases h with
  | kept _ => exact Iff.rfl
  | named hne _ _ _ => exact iff_of_false (Expr.qualified_ne_nil _) hne

theorem Qualified.mem (h : Qualified cs cs') (hc : c ∈ cs') :
    (glyphs.lookup c = none ∧ isBlank c = false) ∨ c ∈ cs := by
  have hrun : ∀ {w w'}, IsRun w → Renamed w w' → c ∈ w' →
      (glyphs.lookup c = none ∧ isBlank c = false) ∨ c ∈ w := fun hw hr hc =>
    (hr.mem hc).imp_left fun hg => ⟨hg, (hr.isRun hw).ink c hc⟩
  induction h with
  | run hw hr => exact hrun hw hr hc
  | mark hw hr _ _ ih =>
    obtain hc | hc := List.mem_append.1 hc
    · exact (hrun hw hr hc).imp_right (List.mem_append_left _)
    · obtain rfl | hc := List.mem_cons.1 hc
      · exact .inr (List.mem_append_right _ List.mem_cons_self)
      · exact (ih hc).imp_right fun hm => List.mem_append_right _ (List.mem_cons_of_mem _ hm)

theorem IsRun.map_head? (h : IsRun w) :
    w.head?.map isBlank = if w = [] then none else some false := by
  cases w with
  | nil => rfl
  | cons c w => rw [List.head?_cons, Option.map_some, h.ink c List.mem_cons_self, if_neg nofun]

theorem IsRun.map_getLast? (h : IsRun w) :
    w.getLast?.map isBlank = if w = [] then none else some false := by
  have hr : IsRun w.reverse := fun c hc => h c (List.mem_reverse.1 hc)
  rw [← List.head?_reverse, hr.map_head?]
  simp only [List.reverse_eq_nil_iff]

/-- Blanks stay where they are, seen from either end. -/
theorem Qualified.ends (h : Qualified cs cs') : cs'.head?.map isBlank = cs.head?.map isBlank ∧
    cs'.getLast?.map isBlank = cs.getLast?.map isBlank := by
  have hrun : ∀ {w w'}, IsRun w → Renamed w w' → w'.head?.map isBlank = w.head?.map isBlank ∧
      w'.getLast?.map isBlank = w.getLast?.map isBlank := fun hw hr => by
    have hw' := hr.isRun hw
    rw [hw.map_head?, hw'.map_head?, hw.map_getLast?, hw'.map_getLast?]
    simp only [hr.eq_nil_iff, and_self]
  induction h with
  | run hw hr => exact hrun hw hr
  | @mark w w' v v' c hw hr _ _ ih =>
    have hlast : ∀ w v, (w ++ c :: v).getLast?.map isBlank =
        some ((v.getLast?.map isBlank).getD (isBlank c)) := fun w v => by
      rw [List.getLast?_append_of_ne_nil _ (List.cons_ne_nil c v), List.getLast?_cons,
        Option.map_some, Option.getD_map]
    refine ⟨?_, by rw [hlast, hlast, ih.2]⟩
    rw [List.head?_append, List.head?_append, Option.map_or, Option.map_or, (hrun hw hr).1]
    rfl

theorem Qualified.single (h : Qualified cs cs')
    (hs : cs.IsChain fun a b => ¬ (isBlank a = true ∧ isBlank b = true)) :
    cs'.IsChain fun a b => ¬ (isBlank a = true ∧ isBlank b = true) := by
  have hrun : ∀ {w}, IsRun w → w.IsChain fun a b => ¬ (isBlank a = true ∧ isBlank b = true) :=
    fun hw => List.Pairwise.isChain (List.pairwise_of_forall_mem_list fun a ha b _ hb => by
      rw [hw.ink a ha] at hb
      exact Bool.false_ne_true hb.1)
  induction h with
  | run hw hr => exact hrun (hr.isRun hw)
  | @mark w w' v v' c hw hr _ hv ih =>
    obtain ⟨-, hs, -⟩ := List.isChain_append.1 hs
    obtain ⟨hn, hs⟩ := List.isChain_cons.1 hs
    refine List.isChain_append.2 ⟨hrun (hr.isRun hw), List.isChain_cons.2 ⟨?_, ih hs⟩, ?_⟩
    · rintro d hd ⟨hbc, hbd⟩
      have hh := hv.ends.1
      rw [Option.mem_def.1 hd, Option.map_some, hbd] at hh
      obtain ⟨e, he, hbe⟩ := Option.map_eq_some_iff.1 hh.symm
      exact hn e he ⟨hbc, hbe⟩
    · rintro d hd e - ⟨hb, -⟩
      rw [(hr.isRun hw).ink d (List.mem_of_mem_getLast? hd)] at hb
      cases hb

theorem Qualified.tidy (h : Qualified cs cs') (ht : Tidy cs) : Tidy cs' where
  plain _ hc := (h.mem hc).elim (·.1) (ht.plain _)
  space c hc hb := by
    obtain ⟨-, hn⟩ | hc := h.mem hc
    · rw [hb] at hn
      cases hn
    · exact ht.space c hc hb
  single := h.single ht.single
  first c hc := by
    have hh := h.ends.1
    rw [Option.mem_def.1 hc, Option.map_some] at hh
    obtain ⟨d, hd, hb⟩ := Option.map_eq_some_iff.1 hh.symm
    rw [← hb, ht.first d hd]
  last c hc := by
    have hh := h.ends.2
    rw [Option.mem_def.1 hc, Option.map_some] at hh
    obtain ⟨d, hd, hb⟩ := Option.map_eq_some_iff.1 hh.symm
    rw [← hb, ht.last d hd]

/-! ### All stages -/

/-- Each stage leaves alone what it has made, and all of them together leave alone what has been
spelled out. -/
theorem stages_idempotent (t : String) :
    normalizeText (normalizeText t) = normalizeText t ∧
      multiplyText (multiplyText t) = multiplyText t ∧
      (∀ r, resolveText t = .ok r → resolveText r = .ok r) ∧
      ∀ r, expand t = .ok r → expand r = .ok r := by
  refine ⟨?_, ?_, fun r h => ?_, fun r h => ?_⟩
  · rw [normalizeText, normalizeText, String.toList_ofList, normalize_normalize]
  · rw [multiplyText, multiplyText, String.toList_ofList, insertProducts_insertProducts]
  · obtain ⟨cs, hq, rfl⟩ := map_eq_ok_iff.1 h
    rw [resolveText, String.toList_ofList, qualifyNames_qualifyNames hq]
    rfl
  · rw [← String.ofList_toList (s := t), Juxtaposition.expand_ofList] at h
    obtain ⟨cs, hq, rfl⟩ := map_eq_ok_iff.1 h
    have hq := qualified_iff.2 hq
    have htidy := hq.tidy (tidy_normalize t.toList).insertProducts
    have hsilent := hq.silent rfl (.refl []) (silent_insertProducts _)
    rw [Juxtaposition.expand_ofList, normalize_of_tidy htidy, insertProducts_of_silent hsilent,
      hq.again.qualifyNames_eq]
    rfl

theorem stages_idempotent_shorthand : resolveText "2x SIN(pi)" = .ok "2x math.sin(math.pi)" ∧
    resolveText "2x math.sin(math.pi)" = .ok "2x math.sin(math.pi)" ∧
    expand "2x Sin(πx)" = .ok "2*x math.sin((math.pi)*x)" ∧
    expand "2*x math.sin((math.pi)*x)" = .ok "2*x math.sin((math.pi)*x)" := by
  have h1 : resolveText "2x SIN(pi)" = .ok "2x math.sin(math.pi)" := by decide +kernel
  have h2 : expand "2x Sin(πx)" = .ok "2*x math.sin((math.pi)*x)" := by decide +kernel
  exact ⟨h1, (stages_idempotent _).2.2.1 _ h1, h2, (stages_idempotent _).2.2.2 _ h2⟩

end Relief.Shorthand
