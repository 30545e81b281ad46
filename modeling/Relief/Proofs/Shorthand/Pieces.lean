import Mathlib
import Relief.Proofs.Shorthand.Renaming
import Relief.Shorthand

/-!
The three passes that qualify names, as one map over the pieces of a text: the runs in it, each as long as
it can be, and the characters between them. What stands for a run is looked up in the tables of names, and
no pass finds a name within a longer run or within what an earlier pass has put in.
-/
namespace Relief.Shorthand

open Relief.Text Relief.Scan

variable {w w' u v cs cs' : List Char} {c : Char} {s : String × String}

/-- A text cut into runs, each as long as it can be, and the single characters between them. -/
def pieces (cs : List Char) : List (List Char) :=
  cs.splitBy fun a b => continuesName a && continuesName b

/-- What stands for a piece: the qualified name of a function, whatever the case of its letters, or of a
constant, or the piece itself. -/
def renamed (w : List Char) : List Char :=
  match spellings.lookup (String.ofList (w.map Char.toLower)) with
  | some name => qualified name
  | none => if String.ofList w ∈ constantNames then qualified (String.ofList w) else w

/-! ### Pieces -/

theorem IsRun.isChain (h : IsRun w) : w.IsChain fun a b => continuesName a && continuesName b :=
  List.Pairwise.isChain (List.pairwise_of_forall_mem_list fun a ha b hb => by
    rw [h a ha, h b hb]
    rfl)

theorem isRun_of_isChain {d : Char}
    (h : (c :: d :: w).IsChain fun a b => continuesName a && continuesName b) :
    IsRun (c :: d :: w) := by
  induction w generalizing c d with
  | nil =>
    obtain ⟨hcd, -⟩ := List.isChain_cons_cons.1 h
    rw [Bool.and_eq_true] at hcd
    exact List.forall_mem_cons.2 ⟨hcd.1, List.forall_mem_singleton.2 hcd.2⟩
  | cons e w ih =>
    obtain ⟨hcd, h⟩ := List.isChain_cons_cons.1 h
    rw [Bool.and_eq_true] at hcd
    exact List.forall_mem_cons.2 ⟨hcd.1, ih h⟩

theorem pieces_run (h : IsRun w) : pieces w = if w = [] then [] else [w] := by
  split
  · next hw => rw [hw]; rfl
  · next hw => exact List.splitBy_of_isChain hw h.isChain

theorem pieces_mark (hc : continuesName c = false) (v : List Char) :
    pieces (w ++ c :: v) = pieces w ++ [c] :: pieces v := by
  have hleft : pieces (w ++ c :: v) = pieces w ++ pieces (c :: v) :=
    List.splitBy_append_cons v fun a _ => by rw [hc, Bool.and_false]
  have hright : pieces ([c] ++ v) = pieces [c] ++ pieces v :=
    List.splitBy_append fun a ha b _ => by
      obtain rfl : c = a := by simpa using ha
      rw [hc, Bool.false_and]
  rw [hleft]
  exact congrArg (pieces w ++ ·) hright

/-- A piece is a run or a character that continues no name. -/
theorem isRun_or_mark_of_mem_pieces (h : w ∈ pieces cs) :
    w ≠ [] ∧ (IsRun w ∨ ∃ c, w = [c] ∧ continuesName c = false) := by
  have hn := List.ne_nil_of_mem_splitBy h
  have hc := List.isChain_of_mem_splitBy h
  refine ⟨hn, ?_⟩
  obtain ⟨c, w, rfl⟩ := List.exists_cons_of_ne_nil hn
  cases w with
  | nil =>
    cases hc : continuesName c with
    | true => exact .inl (List.forall_mem_singleton.2 hc)
    | false => exact .inr ⟨c, rfl, hc⟩
  | cons d w => exact .inl (isRun_of_isChain hc)

/-- No run stands beside another: each is as long as it can be. -/
theorem isChain_pieces (cs : List Char) : (pieces cs).IsChain fun v w => ¬ (IsRun v ∧ IsRun w) := by
  refine (List.isChain_getLast_head_splitBy _ cs).imp fun v w h hr => ?_
  obtain ⟨hv, hw, h⟩ := h
  rw [hr.1 _ (List.getLast_mem hv), hr.2 _ (List.head_mem hw)] at h
  cases h

/-! ### What stands for a piece -/

theorem isSpelling_iff_lookup :
    (∃ name, spellings.lookup (String.ofList (w.map Char.toLower)) = some name ∧
      s = (String.ofList (w.map Char.toLower), name)) ↔ IsSpelling w s := by
  have hfirst : ∀ s ∈ spellings, spellings.lookup s.1 = some s.2 := by decide
  constructor
  · rintro ⟨name, hl, rfl⟩
    obtain ⟨l, l', he, -⟩ := List.lookup_eq_some_iff.1 hl
    exact ⟨he ▸ List.mem_append_right l List.mem_cons_self, String.toList_ofList.symm⟩
  · intro h
    have hs : String.ofList (w.map Char.toLower) = s.1 := by rw [h.lower, String.ofList_toList]
    exact ⟨s.2, hs ▸ hfirst s h.known, by rw [hs]⟩

theorem IsSpelling.renamed (h : IsSpelling w s) : renamed w = qualified s.2 := by
  obtain ⟨name, hl, rfl⟩ := isSpelling_iff_lookup.2 h
  rw [Shorthand.renamed, hl]

theorem renamed_of_no_spelling (h : ∀ s, ¬ IsSpelling w s) :
    renamed w = if String.ofList w ∈ constantNames then qualified (String.ofList w) else w := by
  rw [renamed]
  split
  · next name hl => exact absurd (isSpelling_iff_lookup.1 ⟨name, hl, rfl⟩) (h _)
  · rfl

/-- Recognized without regard to case, a word is spelled in ASCII letters or has a foreign one. -/
theorem isSpelling_or_isForeign (hs : s ∈ spellings) (h : afterName? s.1.toList w = some []) :
    IsSpelling w s ∨ IsForeign w := by
  have hl := List.all_eq_true.1 (spellings_letters s hs)
  by_cases hw : ∀ c ∈ w, isAsciiLetter c = true
  · refine .inl ⟨hs, (afterName?_iff (fun c hc => ?_) hw).1 h⟩
    simpa using List.all_eq_true.1 (spellings_lower s hs) c hc
  · refine .inr ⟨⟨s, hs, h⟩, ?_⟩
    simp only [not_forall, Bool.not_eq_true] at hw
    obtain ⟨c, hc, hca⟩ := hw
    obtain ⟨u, hu, -, hforms⟩ := isFormOf_of_afterName? h
    rw [List.append_nil] at hu
    obtain ⟨letter, hletter, hf⟩ := hforms c (hu ▸ hc)
    exact ⟨c, hc, mem_foreignLetters (hl letter hletter) hf hca⟩

theorem functionWord_of_no_spelling (hs : ∀ s, ¬ IsSpelling w s) (hf : ¬ IsForeign w) :
    functionWord w = .ok none :=
  functionWord_of_unknown fun s hm he => (isSpelling_or_isForeign hm he).elim (hs s) hf

theorem not_isAsciiLetter_of_foreign (h : c ∈ foreignLetters) : isAsciiLetter c = false := by
  have hbig : foreignLetters.all (128 ≤ ·.toNat) = true := by decide
  have hc := of_decide_eq_true (List.all_eq_true.1 hbig c h)
  rw [← Bool.not_eq_true, isAsciiLetter_iff]
  omega

theorem IsForeign.functionWord (h : IsForeign w) : ∃ e, functionWord w = .error e := by
  obtain ⟨⟨s, hs, hw⟩, c, hc, hforeign⟩ := h
  obtain ⟨s', -, he⟩ := functionWord_of_known hs hw
  refine ⟨_, he.trans (if_neg fun hall => ?_)⟩
  have hl := List.all_eq_true.1 hall c hc
  rw [not_isAsciiLetter_of_foreign hforeign] at hl
  cases hl

/-- A run that is not refused is qualified to what is looked up for it. -/
theorem qualifyNames_of_not_isForeign (hw : IsRun w) (hf : ¬ IsForeign w) :
    qualifyNames w = .ok (renamed w) := by
  by_cases hs : ∃ s, IsSpelling w s
  · obtain ⟨s, hs⟩ := hs
    rw [hs.qualifyNames, hs.renamed]
  simp only [not_exists] at hs
  rw [renamed_of_no_spelling hs]
  by_cases hne : w = []
  · subst hne
    rfl
  split
  · next hc =>
    have hq : ∀ name ∈ constantNames, qualifyNames name.toList = .ok (qualified name) := by decide
    have := hq _ hc
    rwa [String.toList_ofList] at this
  · next hc =>
    refine @qualifyNames_run w none hw hne (functionWord_of_no_spelling hs hf) hw hne fun name hm =>
      if_neg fun he => hc ?_
    rwa [show w = name.toList from he, String.ofList_toList]

theorem Renamed.not_isForeign (h : Renamed w w') (hw : IsRun w) : ¬ IsForeign w := by
  intro hf
  obtain ⟨e, he⟩ := hf.functionWord
  obtain ⟨u, hu, -⟩ := bind_eq_ok_iff.1 h.qualifyNames_eq
  have hmark := replaceWords_wall runRule_function (show continuesName ' ' = false by decide)
    (Nat.zero_le _) hu (show replaceWords functionRule false 0 [] = .ok [] from rfl)
  obtain ⟨⟨r, hr⟩, -⟩ := functionRule_of_mark hw (by decide) hmark
  exact ok_ne_error (hr.symm.trans he)

/-- A character that continues no name is neither a name nor refused. -/
theorem renamed_mark (hc : continuesName c = false) : renamed [c] = [c] ∧ ¬ IsForeign [c] := by
  have hform : ∀ letter, isAsciiLetter letter = true → isFormOf letter c = false := by
    intro letter hl
    rw [← Bool.not_eq_true]
    intro hf
    rw [continuesName_of_isFormOf hl hf] at hc
    cases hc
  have hnone : ∀ s ∈ spellings, afterName? s.1.toList [c] ≠ some [] := by
    intro s hs he
    rw [afterName?_spelling hs (by rintro d ⟨⟩; exact hform)] at he
    cases he
  refine ⟨?_, fun hf => ?_⟩
  · rw [renamed_of_no_spelling fun s hs => hnone s hs.known hs.afterName?, if_neg]
    intro hm
    have hl := (Expr.letters_constantName hm).1 c (by simp)
    rw [continuesName_of_isAsciiLetter hl] at hc
    cases hc
  · obtain ⟨s, hs, he⟩ := hf.spelled
    exact hnone s hs he

/-! ### The whole text -/

theorem Qualified.not_isForeign (h : Qualified cs cs') : ∀ w ∈ pieces cs, ¬ IsForeign w := by
  have hrun : ∀ {w w'}, IsRun w → Renamed w w' → ∀ v ∈ pieces w, ¬ IsForeign v := by
    intro w w' hw hr v hv
    rw [pieces_run hw] at hv
    split at hv
    · cases hv
    · rw [List.mem_singleton.1 hv]
      exact hr.not_isForeign hw
  induction h with
  | run hw hr => exact hrun hw hr
  | mark hw hr hc _ ih =>
    rw [pieces_mark hc]
    exact List.forall_mem_append.2 ⟨hrun hw hr, List.forall_mem_cons.2 ⟨(renamed_mark hc).2, ih⟩⟩

theorem qualifyNames_pieces (h : ∀ w ∈ pieces cs, ¬ IsForeign w) :
    qualifyNames cs = .ok ((pieces cs).flatMap renamed) := by
  have hrun : ∀ {w}, IsRun w → (∀ v ∈ pieces w, ¬ IsForeign v) →
      qualifyNames w = .ok ((pieces w).flatMap renamed) := by
    intro w hw hf
    by_cases hne : w = []
    · rw [hne]
      rfl
    · rw [pieces_run hw, if_neg hne] at hf ⊢
      rw [List.flatMap_singleton]
      exact qualifyNames_of_not_isForeign hw (hf w List.mem_cons_self)
  induction hn : cs.length using Nat.strong_induction_on generalizing cs with
  | _ n ih =>
    obtain ⟨w, r, rfl, hw, hr⟩ := exists_run cs
    cases r with
    | nil =>
      rw [List.append_nil] at h ⊢
      exact hrun hw h
    | cons c v =>
      rw [endsName_cons, Bool.not_eq_true'] at hr
      rw [pieces_mark hr, List.forall_mem_append, List.forall_mem_cons] at h
      obtain ⟨hwf, -, hvf⟩ := h
      have hv := ih v.length (by simp [← hn]; omega) hvf rfl
      rw [pieces_mark hr, List.flatMap_append, List.flatMap_cons, (renamed_mark hr).1]
      exact qualifyNames_wall hr (hrun hw hwf) hv

/-- Names are qualified piece by piece. A text is cut into runs, no two of which stand side by side, and
single characters between them. Unless the name of a function is spelled with a foreign letter, each piece
is replaced by what stands for it, and nothing else is changed. -/
theorem resolveText_pieces (text : String) :
    (pieces text.toList).flatten = text.toList ∧
    (∀ w ∈ pieces text.toList, w ≠ [] ∧ (IsRun w ∨ ∃ c, w = [c] ∧ continuesName c = false)) ∧
    (pieces text.toList).IsChain (fun v w => ¬ (IsRun v ∧ IsRun w)) ∧
    ∀ resolved, resolveText text = .ok resolved ↔ (∀ w ∈ pieces text.toList, ¬ IsForeign w) ∧
      resolved = String.ofList ((pieces text.toList).flatMap renamed) := by
  refine ⟨List.flatten_splitBy _ _, fun w hw => isRun_or_mark_of_mem_pieces hw, isChain_pieces _,
    fun resolved => ⟨fun h => ?_, ?_⟩⟩
  · obtain ⟨r, hr, rfl⟩ := map_eq_ok_iff.1 h
    have hf := (qualified_iff.2 hr).not_isForeign
    exact ⟨hf, congrArg String.ofList (Except.ok.inj (hr.symm.trans (qualifyNames_pieces hf)))⟩
  · rintro ⟨hf, rfl⟩
    exact map_eq_ok_iff.2 ⟨_, qualifyNames_pieces hf, rfl⟩

example : resolveText "asin(SIN(pi)+e.pix)" = .ok "math.asin(math.sin(math.pi)+e.pix)" := by decide

end Relief.Shorthand
