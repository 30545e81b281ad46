import Mathlib
import Relief.Proofs.Print.Names
import Relief.Proofs.Scan.Munch
import Relief.Proofs.Shorthand.Wall

/-!
Numbers and the names of functions within a longer text. No product rule matches inside a word, and what
becomes of a word by qualifying is known as soon as it is known which name it is.
-/
namespace Relief.Shorthand

open Relief.Text Relief.Scan Relief.Number

variable {before w rest name : List Char} {c letter : Char} {s : String × String} {d : Decimal}

/-! ### No products inside -/

theorem insertAt_of_still (h : Still before w rest) : insertAt productGap before (w ++ rest) =
    w ++ insertAt productGap (w.reverse ++ before) rest := by
  induction h with
  | nil => rfl
  | cons hq _ ih =>
    rw [List.cons_append, insertAt_productGap_of_quiet hq, ih, List.reverse_cons, List.append_assoc]
    rfl

/-! ### Numbers -/

theorem isDigit_of_lt (h : isDigit c = true) (hc : c.toNat < 128) : c.isDigit = true :=
  Char.isDigit_iff_toNat.2 ((isDigit_iff_of_lt hc).1 h)

theorem isBare_of_digit (h : isDigit c = true) : IsBare c := by
  refine ⟨?_, ?_, ?_⟩
  · rw [← Bool.not_eq_true]
    intro hl
    rw [not_isDigit_of_isAsciiLetter hl] at h
    cases h
  all_goals
    rintro rfl
    revert h
    decide

/-- A number is a mantissa without letters, and possibly an exponent. -/
theorem exists_exponent (h : NumberText w d) :
    ∃ m x, w = m ++ x ∧ m ≠ [] ∧ (∀ c ∈ m, IsBare c) ∧ (x = [] ∨ ∃ mark y, x = mark :: y ∧
      isExponentMark mark = true ∧ (∀ c ∈ y, IsBare c) ∧
        ∀ rest, startsExponent (mark :: (y ++ rest)) = true) := by
  have hbare : ∀ {ds : List Char}, IsDigits ds → ∀ c ∈ ds, IsBare c := fun hd c hc =>
    isBare_of_digit (hd c hc)
  obtain ⟨hm, hx⟩ := h
  next m x _ _ _ =>
  refine ⟨m, x, rfl, ?_, ?_, ?_⟩
  · cases hm with
    | whole hne _ => exact hne
    | point => simp
  · cases hm with
    | whole _ hd => exact hbare hd
    | point _ hd hf =>
      exact List.forall_mem_append.2 ⟨hbare hd,
        List.forall_mem_cons.2 ⟨⟨rfl, by decide, by decide⟩, hbare hf⟩⟩
  · cases hx with
    | none => exact .inl rfl
    | @unsigned mark ds hmark hn hd =>
      refine .inr ⟨mark, ds, rfl, hmark, hbare hd, fun rest => ?_⟩
      obtain ⟨c, ds, rfl⟩ := List.exists_cons_of_ne_nil hn
      rw [List.cons_append, startsExponent, hd c List.mem_cons_self, Bool.or_true, Bool.and_true]
      exact hmark
    | @signed mark sign ds hmark hs hn hd =>
      refine .inr ⟨mark, sign :: ds, rfl, hmark, List.forall_mem_cons.2 ⟨?_, hbare hd⟩,
        fun rest => ?_⟩
      · obtain rfl | rfl := hs <;> exact ⟨rfl, by decide, by decide⟩
      · rw [List.cons_append, startsExponent]
        obtain rfl | rfl := hs
        all_goals
          rw [Bool.and_eq_true]
          exact ⟨hmark, rfl⟩

/-- After its first character, a number has no gap where a rule matches. -/
theorem still_number (h : NumberText (c :: w) d) : Still (c :: before) w rest := by
  obtain ⟨m, x, he, hne, hm, hx⟩ := exists_exponent h
  obtain ⟨a, m, rfl⟩ := List.exists_cons_of_ne_nil hne
  obtain ⟨rfl, rfl⟩ := List.cons.inj he
  obtain ⟨hb, hm⟩ := List.forall_mem_cons.1 hm
  have hv := isVariable_eq_false hb.1
  have hl : Loose (c :: before) := hb.loose
  refine (still_bare hm hl).append ?_
  obtain rfl | ⟨mark, y, rfl, hmark, hy, hs⟩ := hx
  · exact .nil
  · obtain ⟨hl', hv'⟩ := loose_bare hm hl hv
    have hmv : isVariable mark = false ∧ mark ≠ '(' ∧ mark ≠ ')' := by
      simp only [isExponentMark, Bool.or_eq_true, beq_iff_eq] at hmark
      obtain rfl | rfl := hmark <;> decide
    refine .cons (quiet_exponent hl' hv' (hs rest) hmv.2.1) (still_bare hy (loose_cons hmv.2.2 ?_))
    rw [hmv.1]
    exact fun hf => absurd hf Bool.false_ne_true

/-! ### Qualifying a word -/

theorem RunRule.replaceWords_all {rule : WordRule}
    {word : List Char → Except ForeignSpelling (Option (List Char))} (h : RunRule rule word)
    (hw : IsRun w) (hn : w ≠ []) {r : Option (List Char)} (hx : word w = .ok r) :
    Shorthand.replaceWords rule false 0 w = .ok (r.getD w) := by
  have hr := h.replaceWords hw hn (show endsName [] = true from rfl) hx
  rw [List.append_nil] at hr
  rw [hr]
  exact congrArg Except.ok (List.append_nil _)

/-- A run is qualified as a whole or stays. -/
theorem qualifyNames_run {r : Option (List Char)} (hw : IsRun w) (hn : w ≠ [])
    (hf : functionWord w = .ok r) (hr : IsRun (r.getD w)) (hrn : r.getD w ≠ [])
    (hc : ∀ name ∈ constantNames, constantWord name (r.getD w) = none) :
    qualifyNames w = .ok (r.getD w) := by
  refine bind_eq_ok_iff.2 ⟨_, runRule_function.replaceWords_all hw hn hf, ?_⟩
  have hrules := runRule_constantNames
  generalize constantNames = names at hc hrules
  induction names with
  | nil => rfl
  | cons name names ih =>
    obtain ⟨hname, hc⟩ := List.forall_mem_cons.1 hc
    obtain ⟨hrule, hrules⟩ := List.forall_mem_cons.1 hrules
    have hkept := hrule.replaceWords_all hr hrn (congrArg Except.ok hname)
    rw [List.foldlM_cons]
    exact bind_eq_ok_iff.2 ⟨_, hkept, ih hc hrules⟩

/-- A run that begins with a digit stays. -/
theorem qualifyNames_digits (hw : IsRun (c :: w)) (hc : isDigit c = true) (ha : c.toNat < 128) :
    qualifyNames (c :: w) = .ok (c :: w) := by
  have hl := (isBare_of_digit hc).1
  refine @qualifyNames_run (c :: w) none hw (List.cons_ne_nil _ _) ?_ hw (List.cons_ne_nil _ _) ?_
  · apply functionWord_eq_none
    rintro d ⟨⟩ letter hletter
    exact isFormOf_eq_false hletter hl ha
  · intro name hm
    refine if_neg fun he => ?_
    have hn : ∀ name ∈ constantNames, name.toList.head?.any isAsciiLetter = true := by decide
    have := hn name hm
    rw [← he, Option.getD_none, List.head?_cons, Option.any_some, hl] at this
    cases this

theorem continuesName_of_isDigit_of_lt (h : isDigit c = true) (hc : c.toNat < 128) :
    continuesName c = true :=
  Expr.continuesName_of_isDigit (isDigit_of_lt h hc)

theorem isRun_mantissa {coefficient places : Nat} (h : MantissaText w coefficient places)
    (ha : ∀ c ∈ w, c.toNat < 128) : IsRun w := by
  have hd : ∀ {ds : List Char}, IsDigits ds → ds ⊆ w → IsRun ds := fun h hs c hc =>
    continuesName_of_isDigit_of_lt (h c hc) (ha c (hs hc))
  cases h with
  | whole _ h => exact hd h (List.Subset.refl _)
  | point _ h hf =>
    exact (hd h fun c hc => by simp [hc]).append
      (List.forall_mem_cons.2 ⟨by decide, hd hf fun c hc => by simp [hc]⟩)

/-- A number has no names: only the sign of its exponent stands between runs. -/
theorem qualifyNames_number (h : NumberText w d) (ha : ∀ a ∈ w, a.toNat < 128)
    (hc : w.head?.any isDigit = true) : qualifyNames w = .ok w := by
  have hone : ∀ {v : List Char}, IsRun v → v.head?.any isDigit = true → (∀ a ∈ v, a.toNat < 128) →
      qualifyNames v = .ok v := by
    intro v hv hd ha
    cases v with
    | nil => rfl
    | cons c v => exact qualifyNames_digits hv hd (ha c List.mem_cons_self)
  obtain ⟨hm, hx⟩ := h
  next m x _ _ _ =>
  have hmrun := isRun_mantissa hm fun c hc => ha c (List.mem_append_left x hc)
  have hmark : ∀ {mark}, isExponentMark mark = true → continuesName mark = true := by
    intro mark h
    simp only [isExponentMark, Bool.or_eq_true, beq_iff_eq] at h
    obtain rfl | rfl := h <;> decide
  cases hx with
  | none => exact hone (by rwa [List.append_nil]) hc ha
  | unsigned hmk hn hd =>
    refine hone (hmrun.append (List.forall_mem_cons.2 ⟨hmark hmk, fun c hc => ?_⟩)) hc ha
    exact continuesName_of_isDigit_of_lt (hd c hc) (ha c (by simp [hc]))
  | @signed mark sign ds hmk hs hn hd =>
    have hsign : continuesName sign = false := by
      obtain rfl | rfl := hs <;> decide
    have hdrun : IsRun ds := fun c hc =>
      continuesName_of_isDigit_of_lt (hd c hc) (ha c (by simp [hc]))
    have hmne : m ≠ [] := by
      cases hm with
      | whole hne _ => exact hne
      | point => simp
    obtain ⟨a, m, rfl⟩ := List.exists_cons_of_ne_nil hmne
    obtain ⟨b, ds, rfl⟩ := List.exists_cons_of_ne_nil hn
    have hsplit : a :: m ++ mark :: sign :: b :: ds = a :: m ++ [mark] ++ sign :: (b :: ds) := by
      rw [List.append_assoc, List.singleton_append]
    rw [hsplit] at ha ⊢
    have hleft := hone (hmrun.append (List.forall_mem_singleton.2 (hmark hmk))) hc
      fun c hc => ha c (List.mem_append_left _ hc)
    have hright := hone hdrun (hd b List.mem_cons_self)
      fun c hc => ha c (List.mem_append_right _ (List.mem_cons_of_mem _ hc))
    exact qualifyNames_wall hsign hleft hright

/-! ### Names of functions in any case -/

theorem toLower_eq_or (c : Char) : c.toLower = c ∨ isAsciiLetter c = true := by
  rw [Char.toLower]
  split
  · next h => exact .inr (isAsciiLetter_iff.2 (.inr h))
  · exact .inl rfl

theorem isAsciiLetter_of_toLower (h : isAsciiLetter c.toLower = true) : isAsciiLetter c = true := by
  obtain hc | hc := toLower_eq_or c
  · rwa [hc] at h
  · exact hc

/-- Among ASCII letters, only those of the same lower case are forms of a lower-case letter. -/
theorem isFormOf_iff (hl : letter.toLower = letter) (hc : isAsciiLetter c = true) :
    isFormOf letter c = true ↔ c.toLower = letter := by
  simp only [isFormOf, Bool.or_eq_true, Bool.and_eq_true, beq_iff_eq]
  constructor
  · rintro (((rfl | ⟨-, h⟩) | ⟨-, rfl | rfl⟩) | ⟨-, rfl⟩)
    · exact hl
    · exact h
    all_goals cases hc
  · exact fun h => .inl (.inl (.inr ⟨hc, h⟩))

theorem afterName?_iff (hn : ∀ letter ∈ name, letter.toLower = letter)
    (hw : ∀ c ∈ w, isAsciiLetter c = true) :
    afterName? name w = some [] ↔ w.map Char.toLower = name := by
  induction name generalizing w with
  | nil => cases w <;> simp [afterName?]
  | cons letter name ih =>
    obtain ⟨hl, hn⟩ := List.forall_mem_cons.1 hn
    cases w with
    | nil => simp [afterName?]
    | cons c w =>
      obtain ⟨hc, hw⟩ := List.forall_mem_cons.1 hw
      rw [List.map_cons, List.cons.injEq, ← isFormOf_iff hl hc, ← ih hn hw, afterName?]
      split
      · next h => simp [h]
      · next h => simp [h]

theorem spellings_lower : ∀ s ∈ spellings, s.1.toList.all (fun c => c.toLower == c) = true := by
  decide

/-- A name of a function, in letters of either case. -/
structure IsSpelling (w : List Char) (s : String × String) : Prop where
  known : s ∈ spellings
  lower : w.map Char.toLower = s.1.toList

theorem IsSpelling.letters (h : IsSpelling w s) : ∀ c ∈ w, isAsciiLetter c = true := by
  intro c hc
  refine isAsciiLetter_of_toLower (List.all_eq_true.1 (spellings_letters s h.known) _ ?_)
  rw [← h.lower]
  exact List.mem_map_of_mem hc

theorem IsSpelling.afterName? (h : IsSpelling w s) : afterName? s.1.toList w = some [] := by
  refine (afterName?_iff (fun c hc => ?_) h.letters).2 h.lower
  simpa using List.all_eq_true.1 (spellings_lower s h.known) c hc

theorem IsSpelling.ne_nil (h : IsSpelling w s) : w ≠ [] := by
  rintro rfl
  have hl := spellings_letter s h.known
  rw [← h.lower] at hl
  cases hl

theorem IsSpelling.functionWord (h : IsSpelling w s) :
    functionWord w = .ok (some (qualified s.2)) := by
  have hf : spellings.find? (fun s' => Shorthand.afterName? s'.1.toList w == some []) =
      spellings.find? fun s' => s.1.toList == s'.1.toList := by
    refine List.find?_congr fun s' hs' => ?_
    have hn : ∀ letter ∈ s'.1.toList, letter.toLower = letter := fun c hc => by
      simpa using List.all_eq_true.1 (spellings_lower s' hs') c hc
    rw [Bool.eq_iff_iff, beq_iff_eq, beq_iff_eq, afterName?_iff hn h.letters, h.lower]
  have hfirst : ∀ s ∈ spellings, spellings.find? (fun s' => s.1.toList == s'.1.toList) = some s := by
    decide
  rw [Shorthand.functionWord, hf, hfirst s h.known]
  exact if_pos (List.all_eq_true.2 h.letters)

theorem spellings_named : ∀ s ∈ spellings, s.2.toList.all isAsciiLetter = true := by
  decide

theorem IsSpelling.qualifyNames (h : IsSpelling w s) : qualifyNames w = .ok (qualified s.2) := by
  have hname := Expr.isRun_letters (List.all_eq_true.1 (spellings_named s h.known))
  exact qualifyNames_run (Expr.isRun_letters h.letters) h.ne_nil h.functionWord
    (Expr.isRun_qualified hname) (Expr.qualified_ne_nil _)
    fun name hm => Expr.constantWord_qualified hm _

theorem IsSpelling.isName (h : IsSpelling w s) : IsName w := by
  have hlower : ∀ {c}, isVariable c = true → c.toLower = c := fun {c} hv => by
    simp only [isVariable, Bool.or_eq_true, beq_iff_eq] at hv
    obtain rfl | rfl := hv <;> rfl
  obtain ⟨hc, hv⟩ := spellings_precede s h.known
  rw [← h.lower] at hc hv
  refine ⟨h.letters, fun c hcw => ?_, ?_⟩
  · rw [← Bool.not_eq_true]
    intro ht
    rw [List.head?_map, Option.mem_def.1 hcw, Option.map_some, Option.any_some, hlower ht, ht] at hv
    cases hv
  · refine ((List.isChain_map _).1 hc).imp_of_mem_imp fun a b ha _ hp hb => ?_
    have hl : isAsciiLetter a = true := h.letters a ha
    refine isNameLetter_of_isFormOf (hp (by rwa [hlower hb])) ?_
    simp [isFormOf, hl]

/-- After its first letter, a spelling before a parenthesis has no gap where a rule matches. -/
theorem IsSpelling.still (h : IsSpelling (c :: w) s) : Still (c :: before) (w ++ ['(']) rest := by
  obtain ⟨hletters, hf, hi⟩ := h.isName
  obtain ⟨hc, hw⟩ := List.forall_mem_cons.1 hletters
  obtain ⟨hn, hi⟩ := List.isChain_cons.1 hi
  have hhead : ∀ d ∈ w.head?, isVariable d = true → (c :: before).head?.any isNameLetter = true := hn
  obtain ⟨hl, hd⟩ := @loose_letter before c hc fun hv => by
    rw [hf c rfl] at hv
    cases hv
  obtain ⟨hl', hd'⟩ := loose_letters hw hhead hi hl hd
  exact (still_letters hw hhead hi hl hd).append
    (.cons (quiet_start hl' hd' (fun ht => absurd ht (by decide)) _) .nil)

end Relief.Shorthand
