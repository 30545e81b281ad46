import Mathlib
import Relief.Proofs.Outcome
import Relief.Proofs.Shorthand.Glyph
import Relief.Proofs.Shorthand.Qualify
import Relief.Shorthand

/-!
Names with a letter that is only looked up without its case. Only such a name keeps a text from being
spelled out, and only three letters beyond ASCII can stand in one.
-/
namespace Relief.Shorthand

open Relief.Text Relief.Scan

variable {w rest cs name : List Char} {c letter : Char} {s : ForeignSpelling}

/-- The letters beyond ASCII whose case is one of an ASCII letter. -/
def foreignLetters : List Char := ['İ', 'ı', 'ſ']

/-- The spelling of a function that is recognized without its case, but with a foreign letter. -/
structure IsForeign (w : List Char) : Prop where
  spelled : ∃ spelling ∈ spellings, afterName? spelling.1.toList w = some []
  foreign : ∃ c ∈ w, c ∈ foreignLetters

/-! ### Where spelling out fails -/

theorem mem_foreignLetters (hl : isAsciiLetter letter = true) (h : isFormOf letter c = true)
    (hc : isAsciiLetter c = false) : c ∈ foreignLetters := by
  simp only [isFormOf, Bool.or_eq_true, Bool.and_eq_true, beq_iff_eq] at h
  obtain ((rfl | ⟨h, -⟩) | ⟨-, rfl | rfl⟩) | ⟨-, rfl⟩ := h
  · rw [hl] at hc
    cases hc
  · rw [h] at hc
    cases hc
  all_goals decide

/-- Every character of a spelling is a form of one of its letters. -/
theorem isFormOf_of_afterName? (h : afterName? name cs = some rest) :
    ∃ u, cs = u ++ rest ∧ afterName? name u = some [] ∧
      ∀ c ∈ u, ∃ letter ∈ name, isFormOf letter c = true := by
  induction name generalizing cs with
  | nil =>
    cases cs <;> (rw [afterName?] at h; cases h; exact ⟨[], rfl, rfl, fun _ h => absurd h List.not_mem_nil⟩)
  | cons letter name ih =>
    cases cs with
    | nil => cases h
    | cons c cs =>
      rw [afterName?] at h
      split at h
      · next hf =>
        obtain ⟨u, rfl, hu, hall⟩ := ih h
        refine ⟨c :: u, rfl, by rw [afterName?, if_pos hf, hu], ?_⟩
        refine List.forall_mem_cons.2 ⟨⟨letter, List.mem_cons_self, hf⟩, fun d hd => ?_⟩
        obtain ⟨l, hl, hld⟩ := hall d hd
        exact ⟨l, List.mem_cons_of_mem _ hl, hld⟩
      · cases h

theorem functionRule_eq_error (h : functionRule cs = .error s) :
    IsForeign s.word.toList ∧ s.word.toList <+: cs := by
  simp only [functionRule] at h
  split at h
  · cases h
  · next spelling name hs =>
    split at h
    · cases h
    · next hall =>
      obtain rfl := Except.error.inj h
      have hm : (spelling, name) ∈ spellings := List.mem_of_find?_eq_some hs
      have hany : (afterName? spelling.toList cs).any endsName = true := by
        simpa using List.find?_some hs
      obtain ⟨rest, hr, -⟩ := (Option.any_eq_true _ _).1 hany
      obtain ⟨u, rfl, hu, hforms⟩ := isFormOf_of_afterName? hr
      obtain ⟨v, hv, hlen⟩ := afterName?_eq_some hu
      rw [List.append_nil] at hv
      subst hv
      rw [← String.length_toList, ← hlen, List.take_left] at hall ⊢
      rw [String.toList_ofList]
      refine ⟨⟨⟨_, hm, hu⟩, ?_⟩, List.prefix_append u rest⟩
      simp only [List.all_eq_true, not_forall, Bool.not_eq_true] at hall
      obtain ⟨c, hc, hca⟩ := hall
      obtain ⟨letter, hl, hf⟩ := hforms c hc
      have hletter := List.all_eq_true.1 (spellings_letters _ hm) letter hl
      exact ⟨c, hc, mem_foreignLetters hletter hf hca⟩

theorem constantRule_ne_error {name : String} : constantRule name cs ≠ .error s := by
  rw [constantRule]
  split <;> exact ok_ne_error

theorem replaceWords_eq_error {rule : WordRule} {inside : Bool} {skip : Nat}
    (h : replaceWords rule inside skip cs = .error s) : ∃ suf, suf <:+ cs ∧ rule suf = .error s := by
  induction cs generalizing inside skip with
  | nil => cases skip <;> cases h
  | cons c cs ih =>
    cases skip with
    | succ skip =>
      rw [replaceWords] at h
      obtain ⟨suf, hs, hr⟩ := ih h
      exact ⟨suf, hs.trans (List.suffix_cons c cs), hr⟩
    | zero =>
      have hrest : ∀ skip, replaceWords rule (continuesName c) skip cs = .error s →
          ∃ suf, suf <:+ c :: cs ∧ rule suf = .error s := fun skip h => by
        obtain ⟨suf, hs, hr⟩ := ih h
        exact ⟨suf, hs.trans (List.suffix_cons c cs), hr⟩
      by_cases hk : inside = true ∨ rule (c :: cs) = .ok none
      · rw [replaceWords_cons hk] at h
        refine hrest 0 ?_
        cases hr : replaceWords rule (continuesName c) 0 cs with
        | ok r =>
          rw [hr] at h
          cases h
        | error s' =>
          rw [hr] at h
          exact congrArg Except.error (Except.error.inj h)
      · rw [not_or, Bool.not_eq_true] at hk
        rw [replaceWords, hk.1, if_neg Bool.false_ne_true] at h
        obtain h | ⟨found, hfound, h⟩ := bind_eq_error_iff.1 h
        · exact ⟨c :: cs, List.suffix_rfl, h⟩
        · cases found with
          | none => exact absurd hfound hk.2
          | some found =>
            obtain h | ⟨_, -, h⟩ := bind_eq_error_iff.1 h
            · exact hrest _ h
            · cases h

theorem qualifyConstants_ne_error {names : List String} :
    names.foldlM (fun cs name => replaceWords (constantRule name) false 0 cs) cs ≠ .error s := by
  induction names generalizing cs with
  | nil => exact ok_ne_error
  | cons name names ih =>
    rw [List.foldlM_cons]
    refine bind_ne_error (fun h => ?_) fun _ _ => ih
    obtain ⟨suf, -, hr⟩ := replaceWords_eq_error h
    exact constantRule_ne_error hr

theorem qualifyNames_eq_error (h : qualifyNames cs = .error s) :
    IsForeign s.word.toList ∧ s.word.toList <:+: cs := by
  rw [qualifyNames] at h
  obtain h | ⟨cs', -, h⟩ := bind_eq_error_iff.1 h
  · obtain ⟨suf, hs, hr⟩ := replaceWords_eq_error h
    obtain ⟨hf, hp⟩ := functionRule_eq_error hr
    exact ⟨hf, hp.isInfix.trans hs.isInfix⟩
  · exact absurd h qualifyConstants_ne_error

/-! ### Where characters come from -/

theorem mem_insertAt {rule : GapRule} {before : List Char} (h : c ∈ insertAt rule before cs) :
    c = '*' ∨ c ∈ cs := by
  induction cs generalizing before with
  | nil => cases h
  | cons d cs ih =>
    rw [insertAt] at h
    have hrest : c ∈ insertAt rule (d :: before) cs → c = '*' ∨ c ∈ d :: cs := fun h =>
      (ih h).imp_right (List.mem_cons_of_mem d)
    split at h
    · obtain rfl | h := List.mem_cons.1 h
      · exact .inl rfl
      · obtain rfl | h := List.mem_cons.1 h
        · exact .inr List.mem_cons_self
        · exact hrest h
    · obtain rfl | h := List.mem_cons.1 h
      · exact .inr List.mem_cons_self
      · exact hrest h

theorem mem_insertProducts (h : c ∈ insertProducts cs) : c = '*' ∨ c ∈ cs := by
  rw [insertProducts] at h
  generalize gapRules = rules at h
  induction rules generalizing cs with
  | nil => exact .inr h
  | cons rule rules ih =>
    obtain rfl | h := ih h
    · exact .inl rfl
    · exact mem_insertAt h

theorem mem_collapse (h : c ∈ collapse cs) : c = ' ' ∨ c ∈ cs := by
  induction cs with
  | nil => cases h
  | cons d cs ih =>
    have hrest : c ∈ collapse cs → c = ' ' ∨ c ∈ d :: cs := fun h =>
      (ih h).imp_right (List.mem_cons_of_mem d)
    rw [collapse.eq_def] at h
    dsimp only at h
    split at h
    · split at h
      · exact .inl (List.mem_singleton.1 h)
      · split at h
        · exact hrest h
        · exact (List.mem_cons.1 h).elim .inl hrest
    · obtain rfl | h := List.mem_cons.1 h
      · exact .inr List.mem_cons_self
      · exact hrest h

theorem mem_of_mem_trim (h : c ∈ trim cs) : c ∈ cs := by
  rw [trim, List.mem_reverse] at h
  have h := (List.dropWhile_suffix _).mem h
  exact (List.dropWhile_suffix _).mem (List.mem_reverse.1 h)

theorem mem_flatMap_spellOut (h : c ∈ cs.flatMap spellOut) : c.toNat < 128 ∨ c ∈ cs := by
  obtain ⟨d, hd, hc⟩ := List.mem_flatMap.1 h
  obtain ha | ⟨rfl, -⟩ := mem_spellOut hc
  · exact .inl ha
  · exact .inr hd

/-- A character beyond ASCII was there from the start. -/
theorem mem_of_mem_multiplied (hc : 128 ≤ c.toNat) (h : c ∈ insertProducts (normalize cs)) :
    c ∈ cs := by
  obtain rfl | h := mem_insertProducts h
  · cases Nat.not_lt_of_le hc (by decide)
  obtain rfl | h := mem_collapse (mem_of_mem_trim h)
  · cases Nat.not_lt_of_le hc (by decide)
  · exact (mem_flatMap_spellOut h).resolve_left (Nat.not_lt_of_le hc)

/-- A text is spelled out unless it has a function's name with a foreign letter. -/
theorem expand_eq_error {raw : String} (h : expand raw = .error s) :
    IsForeign s.word.toList ∧ ∃ c ∈ raw.toList, c ∈ foreignLetters := by
  have hq : qualifyNames (insertProducts (normalize raw.toList)) = .error s := by
    simp only [expand, stages, resolveText, multiplyText, normalizeText, String.toList_ofList] at h
    cases hq : qualifyNames (insertProducts (normalize raw.toList)) with
    | ok cs =>
      rw [hq] at h
      cases h
    | error s' =>
      rw [hq] at h
      cases h
      rfl
  obtain ⟨hf, hi⟩ := qualifyNames_eq_error hq
  obtain ⟨c, hc, hl⟩ := hf.foreign
  have hbig : foreignLetters.all (128 ≤ ·.toNat) = true := by
    decide
  have hc128 := of_decide_eq_true (List.all_eq_true.1 hbig c hl)
  exact ⟨hf, c, mem_of_mem_multiplied hc128 (hi.mem hc), hl⟩

end Relief.Shorthand
