import Mathlib
import Relief.Proofs.Shorthand.Gap
import Relief.Proofs.Shorthand.Glyph

/-!
The stages of shorthand work on what stands between two walls as if it stood alone. What makes a wall
differs from stage to stage: what is not blank for the first, a comma, a space or a closing parenthesis
for the second, and what continues no name for the third.
-/
namespace Relief.Shorthand

open Relief.Text Relief.Scan

variable {before before' u u' v v' cs rest name : List Char} {c : Char} {rule : WordRule}
  {word : List Char → Except ForeignSpelling (Option (List Char))}

/-! ### Blanks -/

theorem collapse_cons_of_not_blank (h : isBlank c = false) (cs : List Char) :
    collapse (c :: cs) = c :: collapse cs := by
  rw [collapse.eq_def]
  simp [h]

theorem collapse_append (h : ∀ c ∈ v.head?, isBlank c = false) :
    collapse (u ++ v) = collapse u ++ collapse v := by
  induction u with
  | nil => rfl
  | cons c u ih =>
    by_cases hc : isBlank c = true
    · rw [List.cons_append, collapse.eq_def, collapse.eq_def (c :: u)]
      simp only [hc, if_true, ih]
      cases u with
      | nil =>
        cases v with
        | nil => rfl
        | cons d v => simp [h d rfl, collapse]
      | cons d u =>
        dsimp only [List.cons_append]
        split <;> rfl
    · rw [Bool.not_eq_true] at hc
      rw [List.cons_append, collapse_cons_of_not_blank hc, collapse_cons_of_not_blank hc, ih,
        List.cons_append]

theorem collapse_of_ink (h : ∀ c ∈ u, isBlank c = false) (v : List Char) :
    collapse (u ++ v) = u ++ collapse v := by
  induction u with
  | nil => rfl
  | cons c u ih =>
    rw [List.cons_append, collapse_cons_of_not_blank (h c List.mem_cons_self),
      ih fun d hd => h d (List.mem_cons_of_mem _ hd), List.cons_append]

/-- A text whose blanks are spaces that do not follow one another. -/
structure Spaced (cs : List Char) : Prop where
  space : ∀ c ∈ cs, isBlank c = true → c = ' '
  single : cs.IsChain fun a b => ¬ (isBlank a = true ∧ isBlank b = true)

theorem Spaced.reverse (h : Spaced cs) : Spaced cs.reverse where
  space c hc := h.space c (List.mem_reverse.1 hc)
  single := by
    rw [List.isChain_reverse]
    exact h.single.imp fun a b hn hb => hn hb.symm

theorem Spaced.suffix (h : Spaced cs) (hs : u <:+ cs) : Spaced u where
  space c hc := h.space c (hs.mem hc)
  single := h.single.suffix hs

theorem spaced_collapse (cs : List Char) : Spaced (collapse cs) := by
  have hb : ∀ cs, (collapse cs).head?.any isBlank = cs.head?.any isBlank := by
    intro cs
    induction cs with
    | nil => rfl
    | cons c cs ih =>
      rw [collapse.eq_def]
      dsimp only
      by_cases hc : isBlank c = true
      · cases cs with
        | nil => simp [hc]; rfl
        | cons d cs =>
          by_cases hd : isBlank d = true
          · simp [hc, hd, ih]
          · simp [hc, hd]; rfl
      · simp [hc]
  induction cs with
  | nil => exact ⟨fun c hc => absurd hc List.not_mem_nil, .nil⟩
  | cons c cs ih =>
    have hcons : ∀ d, (isBlank d = true → d = ' ') → (isBlank d = true → cs.head?.any isBlank = false) →
        Spaced (d :: collapse cs) := fun d hd hn =>
      { space := List.forall_mem_cons.2 ⟨hd, ih.space⟩
        single := by
          refine List.isChain_cons.2 ⟨fun e he hb' => ?_, ih.single⟩
          have := hb cs
          rw [Option.mem_def.1 he, Option.any_some, hn hb'.1, hb'.2] at this
          cases this }
    rw [collapse.eq_def]
    dsimp only
    by_cases hc : isBlank c = true
    · cases cs with
      | nil =>
        rw [if_pos hc]
        exact hcons ' ' (fun _ => rfl) fun _ => rfl
      | cons d cs =>
        by_cases hd : isBlank d = true
        · simpa [hc, hd] using ih
        · simp only [hc, hd, if_true]
          exact hcons ' ' (fun _ => rfl) fun _ => by simpa using hd
    · rw [if_neg hc]
      exact hcons c (fun h => absurd h hc) fun h => absurd h hc

/-- One space or none. -/
def IsMargin (m : List Char) : Prop := m = [] ∨ m = [' ']

theorem Spaced.margin (h : Spaced cs) : ∃ m, IsMargin m ∧ cs = m ++ cs.dropWhile isBlank := by
  cases cs with
  | nil => exact ⟨[], .inl rfl, rfl⟩
  | cons c cs =>
    by_cases hc : isBlank c = true
    · obtain rfl := h.space c List.mem_cons_self hc
      refine ⟨[' '], .inr rfl, ?_⟩
      rw [List.dropWhile_cons_of_pos hc, dropWhile_isBlank]
      · rfl
      · intro d hd
        rw [← Bool.not_eq_true]
        exact fun hb => (List.isChain_cons.1 h.single).1 d hd ⟨hc, hb⟩
    · refine ⟨[], .inl rfl, ?_⟩
      rw [List.dropWhile_cons_of_neg hc]
      rfl

theorem isMargin_reverse {m : List Char} (h : IsMargin m) : m.reverse = m := by
  obtain rfl | rfl := h <;> rfl

/-- Trimming takes a space at most from either end of a collapsed text. -/
theorem exists_margins (cs : List Char) :
    ∃ l r, IsMargin l ∧ IsMargin r ∧ collapse cs = l ++ trim (collapse cs) ++ r := by
  have h := spaced_collapse cs
  obtain ⟨l, hl, he⟩ := h.margin
  obtain ⟨r, hr, he'⟩ := (h.suffix (List.dropWhile_suffix _)).reverse.margin
  refine ⟨l, r, hl, hr, ?_⟩
  have hrev := congrArg List.reverse he'
  rw [List.reverse_reverse, List.reverse_append, isMargin_reverse hr, ← trim] at hrev
  rw [List.append_assoc, ← hrev, ← he]

/-! ### Products -/

/-- Characters that end what a rule looks at. -/
def IsWall (c : Char) : Prop := c = ',' ∨ c = ' ' ∨ c = ')'

/-- Characters after which a text begins anew. -/
def IsOpen (c : Char) : Prop := c = ',' ∨ c = ' ' ∨ c = '('

theorem IsOpen.sameEnd (h : IsOpen c) (before : List Char) : SameEnd [] (c :: before) := by
  obtain rfl | rfl | rfl := h
  all_goals exact ⟨rfl, rfl, rfl, rfl, rfl⟩

theorem IsWall.quiet (h : IsWall c) (before cs : List Char) : Quiet before (c :: cs) := by
  obtain rfl | rfl | rfl := h
  all_goals exact quiet_mark (by decide) (by decide) (by decide) (by decide) _ _

theorem callsAfter_wall (hc : IsWall c) (hl : ∀ letter ∈ name, isAsciiLetter letter = true) :
    callsAfter name (u ++ c :: rest) = callsAfter name u := by
  induction name generalizing u with
  | nil =>
    cases u with
    | nil =>
      obtain rfl | rfl | rfl := hc
      all_goals rfl
    | cons d u => rw [List.cons_append, callsAfter_nil, callsAfter_nil]; rfl
  | cons letter name ih =>
    obtain ⟨hletter, hl⟩ := List.forall_mem_cons.1 hl
    cases u with
    | nil =>
      have hf : isFormOf letter c = false := by
        obtain rfl | rfl | rfl := hc
        all_goals exact isFormOf_eq_false hletter (by decide) (by decide)
      rw [List.nil_append, callsAfter_cons, hf]
      rfl
    | cons d u => rw [List.cons_append, callsAfter_cons, callsAfter_cons, ih hl]

theorem startsCall_wall (hc : IsWall c) : startsCall (u ++ c :: rest) = startsCall u := by
  rw [startsCall_eq, startsCall_eq, Bool.eq_iff_iff, List.any_eq_true, List.any_eq_true]
  refine exists_congr fun s => and_congr_right fun hs => ?_
  rw [callsAfter_wall hc (List.all_eq_true.1 (spellings_letters s hs))]

theorem startsExponent_wall (hc : IsWall c) (d : Char) :
    startsExponent (d :: (u ++ c :: rest)) = startsExponent (d :: u) := by
  cases u with
  | nil =>
    have hn : (c == '+' || c == '-' || isDigit c) = false := by
      obtain rfl | rfl | rfl := hc <;> decide
    rw [List.nil_append, startsExponent, hn, Bool.and_false]
    rfl
  | cons e u => rfl

theorem productGap_wall (hc : IsWall c) (before : List Char) (d : Char) :
    productGap before (d :: (u ++ c :: rest)) = productGap before (d :: u) := by
  have hs : startsCall (d :: (u ++ c :: rest)) = startsCall (d :: u) := @startsCall_wall (d :: u) _ _ hc
  simp only [productGap, anyOf, gapRules, List.any_cons, List.any_nil, digitThenLetter,
    variableThenCall, startsExponent_wall hc, hs]
  rfl

theorem insertAt_productGap_of_quiet (h : Quiet before (c :: cs)) :
    insertAt productGap before (c :: cs) = c :: insertAt productGap (c :: before) cs := by
  rw [insertAt, productGap_of_quiet h, if_neg Bool.false_ne_true]

theorem insertAt_wall (hc : IsWall c) : insertAt productGap before (u ++ c :: rest) =
    insertAt productGap before u ++ c :: insertAt productGap (c :: (u.reverse ++ before)) rest := by
  induction u generalizing before with
  | nil => exact insertAt_productGap_of_quiet (hc.quiet _ _)
  | cons d u ih =>
    rw [List.cons_append, insertAt, insertAt, productGap_wall hc, ih, List.reverse_cons,
      List.append_assoc]
    split <;> rfl

theorem SameEnd.insertAt_eq (h : SameEnd before before') :
    insertAt productGap before cs = insertAt productGap before' cs := by
  induction cs generalizing before before' with
  | nil => rfl
  | cons c cs ih => rw [insertAt, insertAt, h.productGap_eq, ih (h.cons c)]

/-- What stands between a character that opens and a wall has its own products and no more. -/
theorem insertAt_between (hc : IsWall c) (h : SameEnd [] before) :
    insertAt productGap before (u ++ c :: rest) =
      insertProducts u ++ c :: insertAt productGap (c :: (u.reverse ++ before)) rest := by
  rw [insertAt_wall hc, insertProducts_eq, h.insertAt_eq]

theorem insertProducts_append_cons (hw : IsWall c) (ho : IsOpen c) :
    insertProducts (u ++ c :: v) = insertProducts u ++ c :: insertProducts v := by
  rw [insertProducts_eq (u ++ c :: v), insertAt_between hw (.refl []), insertProducts_eq v,
    (ho.sameEnd _).insertAt_eq]

theorem insertProducts_margins {l r : List Char} (hl : IsMargin l) (hr : IsMargin r) :
    insertProducts (l ++ u ++ r) = l ++ insertProducts u ++ r := by
  have hw : IsWall ' ' := .inr (.inl rfl)
  have ho : IsOpen ' ' := .inr (.inl rfl)
  have hright : insertProducts (u ++ r) = insertProducts u ++ r := by
    obtain rfl | rfl := hr
    · rw [List.append_nil, List.append_nil]
    · exact insertProducts_append_cons hw ho
  rw [List.append_assoc, List.append_assoc, ← hright]
  obtain rfl | rfl := hl
  · rfl
  · exact @insertProducts_append_cons [] _ _ hw ho

/-! ### Names -/

theorem exists_run (u : List Char) : ∃ w r, u = w ++ r ∧ IsRun w ∧ endsName r = true := by
  refine ⟨_, _, List.takeWhile_append_dropWhile.symm, fun d hd => List.mem_takeWhile_imp hd, ?_⟩
  have hd := List.head?_dropWhile_not continuesName u
  cases hu : u.dropWhile continuesName with
  | nil => rfl
  | cons d r =>
    rw [hu] at hd
    rw [endsName_cons, hd]
    rfl

theorem RunRule.wall (h : RunRule rule word) (hc : continuesName c = false) (u : List Char) :
    rule (u ++ c :: v) = rule u := by
  obtain ⟨w, r, rfl, hw, hr⟩ := exists_run u
  have hrc : endsName (r ++ c :: v) = true := by
    cases r with
    | nil => rw [List.nil_append, endsName_cons, hc]; rfl
    | cons d r => exact hr
  rw [List.append_assoc, h.run hw hrc, h.run hw hr]

theorem RunRule.length_le (h : RunRule rule word) {n : Nat} {r : List Char}
    (hr : rule u = .ok (some (n, r))) : n ≤ u.length := by
  obtain ⟨w, r, rfl, hw, he⟩ := exists_run u
  rw [h.run hw he] at hr
  cases hword : word w with
  | error s =>
    rw [hword] at hr
    cases hr
  | ok o =>
    cases o with
    | none =>
      rw [hword] at hr
      cases hr
    | some r =>
      rw [hword] at hr
      cases hr
      rw [List.length_append]
      exact Nat.le_add_right _ _

theorem replaceWords_wall (h : RunRule rule word) (hc : continuesName c = false) {inside : Bool}
    {skip : Nat} (hk : skip ≤ u.length) (hu : replaceWords rule inside skip u = .ok u')
    (hv : replaceWords rule false 0 v = .ok v') :
    replaceWords rule inside skip (u ++ c :: v) = .ok (u' ++ c :: v') := by
  induction u generalizing inside skip u' with
  | nil =>
    obtain rfl : skip = 0 := Nat.le_zero.1 hk
    cases hu
    rw [List.nil_append, replaceWords_cons (.inr (h.mark hc)), hc, hv]
    rfl
  | cons d u ih =>
    rw [List.cons_append]
    cases skip with
    | succ skip =>
      rw [replaceWords] at hu ⊢
      exact ih (Nat.le_of_succ_le_succ hk) hu
    | zero =>
      by_cases hd : inside = true ∨ rule (d :: u) = .ok none
      · have hd' : inside = true ∨ rule (d :: (u ++ c :: v)) = .ok none :=
          hd.imp_right (h.wall hc (d :: u)).trans
        rw [replaceWords_cons hd] at hu
        rw [replaceWords_cons hd']
        cases hr : replaceWords rule (continuesName d) 0 u with
        | error s =>
          rw [hr] at hu
          cases hu
        | ok r =>
          rw [hr] at hu
          cases hu
          rw [ih (Nat.zero_le _) hr]
          rfl
      · rw [not_or, Bool.not_eq_true] at hd
        rw [replaceWords, hd.1, if_neg Bool.false_ne_true] at hu ⊢
        rw [← List.cons_append, h.wall hc]
        obtain ⟨found, hfound, hu⟩ := bind_eq_ok_iff.1 hu
        cases found with
        | none => exact absurd hfound hd.2
        | some found =>
          obtain ⟨r, hr, hu⟩ := bind_eq_ok_iff.1 hu
          cases hu
          have hle := h.length_le hfound
          rw [List.length_cons] at hle
          refine bind_eq_ok_iff.2 ⟨_, hfound, bind_eq_ok_iff.2
            ⟨_, ih (Nat.sub_le_of_le_add hle) hr, ?_⟩⟩
          rw [List.append_assoc]
          rfl

theorem runRule_constantNames : ∀ name ∈ constantNames, RunRule (constantRule name)
    fun w => .ok (constantWord name w) := by
  have hn : ∀ name ∈ constantNames, name.toList.all continuesName = true ∧ name.toList ≠ [] := by
    decide
  exact fun name hm => runRule_constant (List.all_eq_true.1 (hn name hm).1) (hn name hm).2

theorem qualifyConstants_wall (hc : continuesName c = false) {names : List String}
    (hn : names ⊆ constantNames)
    (hu : names.foldlM (fun cs name => replaceWords (constantRule name) false 0 cs) u = .ok u')
    (hv : names.foldlM (fun cs name => replaceWords (constantRule name) false 0 cs) v = .ok v') :
    names.foldlM (fun cs name => replaceWords (constantRule name) false 0 cs) (u ++ c :: v) =
      .ok (u' ++ c :: v') := by
  induction names generalizing u v with
  | nil =>
    cases hu
    cases hv
    rfl
  | cons name names ih =>
    obtain ⟨hname, hn⟩ := List.cons_subset.1 hn
    rw [List.foldlM_cons] at hu hv ⊢
    obtain ⟨u₁, hu₁, hu⟩ := bind_eq_ok_iff.1 hu
    obtain ⟨v₁, hv₁, hv⟩ := bind_eq_ok_iff.1 hv
    have h := replaceWords_wall (runRule_constantNames name hname) hc (Nat.zero_le _) hu₁ hv₁
    exact bind_eq_ok_iff.2 ⟨_, h, ih hn hu hv⟩

/-- Names are qualified on either side of what continues none as if it stood alone. -/
theorem qualifyNames_wall (hc : continuesName c = false) (hu : qualifyNames u = .ok u')
    (hv : qualifyNames v = .ok v') : qualifyNames (u ++ c :: v) = .ok (u' ++ c :: v') := by
  obtain ⟨u₁, hu₁, hu⟩ := bind_eq_ok_iff.1 hu
  obtain ⟨v₁, hv₁, hv⟩ := bind_eq_ok_iff.1 hv
  have h := replaceWords_wall runRule_function hc (Nat.zero_le _) hu₁ hv₁
  exact bind_eq_ok_iff.2 ⟨_, h, qualifyConstants_wall hc (List.Subset.refl _) hu hv⟩

end Relief.Shorthand
