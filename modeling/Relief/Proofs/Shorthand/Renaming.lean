import Mathlib
import Relief.Proofs.Outcome
import Relief.Proofs.Shorthand.Word

/-!
What a text becomes when its names are qualified: a run stays or is a name that is qualified, and what
stands between runs stays. A second time nothing changes, since a run with a dot in it is no name.
-/
namespace Relief.Shorthand

open Relief.Text Relief.Scan

variable {w w' v v' u cs cs' : List Char} {c : Char} {name : String}

/-- The names that can follow the qualifier. -/
def qualifiedNames : List String := spellings.map (·.2) ++ constantNames

/-- What becomes of a run. -/
inductive Renamed : (w w' : List Char) → Prop where
  | kept {w : List Char} : qualifyNames w = .ok w → Renamed w w
  | named {w : List Char} {name : String} : w ≠ [] → (∀ c ∈ w, isAsciiLetter c = true) →
    name ∈ qualifiedNames → qualifyNames w = .ok (qualified name) → Renamed w (qualified name)

/-- What becomes of a text, run by run. -/
inductive Qualified : (cs cs' : List Char) → Prop where
  | run {w w' : List Char} : IsRun w → Renamed w w' → Qualified w w'
  | mark {w w' v v' : List Char} {c : Char} : IsRun w → Renamed w w' → continuesName c = false →
    Qualified v v' → Qualified (w ++ c :: v) (w' ++ c :: v')

/-! ### Qualified names -/

theorem letters_qualifiedNames (h : name ∈ qualifiedNames) :
    ∀ c ∈ name.toList, isAsciiLetter c = true := by
  have hall : ∀ name ∈ qualifiedNames, name.toList.all isAsciiLetter = true := by
    decide
  exact List.all_eq_true.1 (hall name h)

theorem isRun_qualifiedNames (h : name ∈ qualifiedNames) : IsRun (qualified name) :=
  Expr.isRun_qualified (Expr.isRun_letters (letters_qualifiedNames h))

/-- A name with its qualifier is no name of a function, because no letter has a dot as a form. -/
theorem functionWord_qualified (name : String) : functionWord (qualified name) = .ok none := by
  refine functionWord_of_unknown fun s hs he => ?_
  obtain ⟨u, hu, -, hforms⟩ := isFormOf_of_afterName? he
  have hdot : '.' ∈ u := by
    rw [List.append_nil] at hu
    rw [← hu, qualified, String.toList_append]
    exact List.mem_append_left _ (by decide)
  obtain ⟨letter, hl, hf⟩ := hforms '.' hdot
  have hletter := List.all_eq_true.1 (spellings_letters s hs) letter hl
  rw [isFormOf_eq_false hletter (by decide) (by decide)] at hf
  cases hf

theorem qualifyNames_qualified (h : name ∈ qualifiedNames) :
    qualifyNames (qualified name) = .ok (qualified name) :=
  @qualifyNames_run _ none (isRun_qualifiedNames h) (Expr.qualified_ne_nil name)
    (functionWord_qualified name) (isRun_qualifiedNames h) (Expr.qualified_ne_nil name)
    fun _ hm => Expr.constantWord_qualified hm name

/-! ### Runs -/

theorem Renamed.qualifyNames_eq (h : Renamed w w') : qualifyNames w = .ok w' := by
  cases h with
  | kept h => exact h
  | named _ _ _ h => exact h

theorem Renamed.again (h : Renamed w w') : Renamed w' w' := by
  cases h with
  | kept h => exact .kept h
  | named _ _ hn _ => exact .kept (qualifyNames_qualified hn)

theorem Renamed.isRun (h : Renamed w w') (hw : IsRun w) : IsRun w' := by
  cases h with
  | kept _ => exact hw
  | named _ _ hn _ => exact isRun_qualifiedNames hn

/-- Unless it is refused, a run is renamed. -/
theorem exists_renamed {r : Option (List Char)} (hw : IsRun w) (h : functionWord w = .ok r) :
    ∃ w', Renamed w w' := by
  by_cases hne : w = []
  · subst hne
    exact ⟨[], .kept rfl⟩
  cases r with
  | some r =>
    rw [functionWord] at h
    split at h
    · cases h
    · next spelling name hs =>
      split at h
      · next hall =>
        have hm : (spelling, name) ∈ spellings := List.mem_of_find?_eq_some hs
        have hn : name ∈ qualifiedNames := List.mem_append_left _ (List.mem_map_of_mem hm)
        have hq := @qualifyNames_run w (some (qualified name)) hw hne
          (by rw [functionWord, hs]; exact if_pos hall) (isRun_qualifiedNames hn)
          (Expr.qualified_ne_nil name) fun _ hc => Expr.constantWord_qualified hc name
        exact ⟨_, .named hne (List.all_eq_true.1 hall) hn hq⟩
      · cases h
  | none =>
    by_cases hc : ∃ name ∈ constantNames, w = name.toList
    · obtain ⟨name, hm, rfl⟩ := hc
      have hq : ∀ name ∈ constantNames, qualifyNames name.toList = .ok (qualified name) := by
        decide
      exact ⟨_, .named hne (Expr.letters_constantName hm).1 (List.mem_append_right _ hm) (hq name hm)⟩
    · refine ⟨w, .kept (@qualifyNames_run w none hw hne h hw hne fun name hm => if_neg fun he => ?_)⟩
      exact hc ⟨name, hm, he⟩

/-! ### Texts -/

theorem Qualified.qualifyNames_eq (h : Qualified cs cs') : qualifyNames cs = .ok cs' := by
  induction h with
  | run _ h => exact h.qualifyNames_eq
  | mark _ h hc _ ih => exact qualifyNames_wall hc h.qualifyNames_eq ih

theorem Qualified.again (h : Qualified cs cs') : Qualified cs' cs' := by
  induction h with
  | run hw h => exact .run (h.isRun hw) h.again
  | mark hw h hc _ ih => exact .mark (h.isRun hw) h.again hc ih

/-- A text that is not refused has a first run that is not refused, and neither is the rest. -/
theorem functionRule_of_mark (hw : IsRun w) (hc : continuesName c = false)
    (h : replaceWords functionRule false 0 (w ++ c :: v) = .ok u) :
    (∃ r, functionWord w = .ok r) ∧ ∃ u, replaceWords functionRule false 0 v = .ok u := by
  have hr : endsName (c :: v) = true := by
    rw [endsName_cons, hc]
    rfl
  have hrest : ∀ {inside : Bool} {u}, replaceWords functionRule inside 0 (c :: v) = .ok u →
      ∃ u, replaceWords functionRule false 0 v = .ok u := fun h => by
    rw [replaceWords_cons (.inr (runRule_function.mark hc)), hc] at h
    obtain ⟨u, hu, -⟩ := map_eq_ok_iff.1 h
    exact ⟨u, hu⟩
  by_cases hne : w = []
  · subst hne
    exact ⟨⟨none, rfl⟩, hrest h⟩
  · cases hf : functionWord w with
    | ok r =>
      rw [runRule_function.replaceWords hw hne hr hf] at h
      obtain ⟨u, hu, -⟩ := map_eq_ok_iff.1 h
      exact ⟨⟨r, rfl⟩, hrest hu⟩
    | error s =>
      obtain ⟨d, w, rfl⟩ := List.exists_cons_of_ne_nil hne
      have hrule := runRule_function.run hw hr
      rw [hf] at hrule
      rw [List.cons_append] at h hrule
      rw [replaceWords, if_neg Bool.false_ne_true, hrule] at h
      cases h

theorem qualified_of_functionRule (h : replaceWords functionRule false 0 cs = .ok u) :
    ∃ cs', Qualified cs cs' := by
  induction hn : cs.length using Nat.strong_induction_on generalizing cs u with
  | _ n ih =>
    obtain ⟨w, r, rfl, hw, hr⟩ := exists_run cs
    cases r with
    | nil =>
      -- a mark after the only run makes no difference to it
      have hmark := replaceWords_wall runRule_function (show continuesName ' ' = false by decide)
        (Nat.zero_le _) h (show replaceWords functionRule false 0 [] = .ok [] from rfl)
      rw [List.append_nil] at hmark ⊢
      obtain ⟨⟨r, hf⟩, -⟩ := functionRule_of_mark hw (by decide) hmark
      obtain ⟨w', hw'⟩ := exists_renamed hw hf
      exact ⟨w', .run hw hw'⟩
    | cons c v =>
      rw [endsName_cons, Bool.not_eq_true'] at hr
      obtain ⟨⟨r, hf⟩, u, hu⟩ := functionRule_of_mark hw hr h
      obtain ⟨w', hw'⟩ := exists_renamed hw hf
      obtain ⟨v', hv'⟩ := ih v.length (by simp [← hn]; omega) hu rfl
      exact ⟨w' ++ c :: v', .mark hw hw' hr hv'⟩

/-- Names are qualified run by run. -/
theorem qualified_iff : Qualified cs cs' ↔ qualifyNames cs = .ok cs' := by
  refine ⟨fun h => h.qualifyNames_eq, fun h => ?_⟩
  obtain ⟨u, hu, -⟩ := bind_eq_ok_iff.1 h
  obtain ⟨r, hr⟩ := qualified_of_functionRule hu
  obtain rfl := Except.ok.inj (hr.qualifyNames_eq.symm.trans h)
  exact hr

end Relief.Shorthand
