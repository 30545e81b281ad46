import Mathlib
import Relief.Proofs.Shorthand.Foreign
import Relief.Proofs.Shorthand.Product

/-!
The six rules for products as a single one. A `*` that one rule puts into a gap is never seen by a later
rule that looks at another gap, so it makes no difference whether the rules are applied one after the
other or all at once.
-/
namespace Relief.Shorthand

open Relief.Text Relief.Scan

variable {before before' after cs rest name : List Char} {c d letter : Char} {rule : GapRule}
  {rules : List GapRule}

/-- Whether one of several rules matches. -/
def anyOf (rules : List GapRule) : GapRule := fun before after =>
  rules.any fun rule => rule before after

/-- A gap that some rule matches. -/
def productGap : GapRule := anyOf gapRules

theorem anyOf_eq_false (h : ∀ rule ∈ rules, rule before after = false) :
    anyOf rules before after = false :=
  List.any_eq_false.2 fun rule hr => by rw [h rule hr]; exact Bool.false_ne_true

theorem anyOf_of_quiet (hs : rules ⊆ gapRules) (h : Quiet before after) :
    anyOf rules before after = false :=
  anyOf_eq_false fun rule hr => h rule (hs hr)

theorem productGap_of_quiet (h : Quiet before after) : productGap before after = false :=
  anyOf_of_quiet (List.Subset.refl _) h

theorem productGap_of_rule (hr : rule ∈ gapRules) (h : rule before after = true) :
    productGap before after = true :=
  List.any_eq_true.2 ⟨rule, hr, h⟩

/-! ### What rules see -/

/-- Texts before a gap that no rule tells apart. -/
structure SameEnd (before before' : List Char) : Prop where
  digit : endsInDigit before = endsInDigit before'
  paren : (before.head? == some ')') = (before'.head? == some ')')
  factor : endsInVariable before = endsInVariable before'
  coordinate : before.head?.any isVariable = before'.head?.any isVariable
  letter : before.head?.any isNameLetter = before'.head?.any isNameLetter

theorem SameEnd.refl (before : List Char) : SameEnd before before := ⟨rfl, rfl, rfl, rfl, rfl⟩

theorem sameEnd_cons (c : Char)
    (h : before.head?.any isNameLetter = before'.head?.any isNameLetter) :
    SameEnd (c :: before) (c :: before') where
  digit := rfl
  paren := rfl
  factor := by rw [endsInVariable, endsInVariable, h]
  coordinate := rfl
  letter := rfl

theorem SameEnd.cons (c : Char) (h : SameEnd before before') :
    SameEnd (c :: before) (c :: before') :=
  sameEnd_cons c h.letter

theorem SameEnd.rule_eq (hr : rule ∈ gapRules) (h : SameEnd before before') :
    rule before after = rule before' after := by
  simp only [gapRules, List.mem_cons, List.not_mem_nil, or_false] at hr
  rcases hr with rfl | rfl | rfl | rfl | rfl | rfl
  · rw [digitThenLetter, digitThenLetter, h.digit]
  · rw [digitThenParen, digitThenParen, h.digit]
  · rw [parenThenFactor, parenThenFactor, h.paren]
  · rw [variableThenParen, variableThenParen, h.factor]
  · rw [variableThenCall, variableThenCall, h.factor]
  · rw [variableThenVariable, variableThenVariable, h.coordinate]

theorem SameEnd.productGap_eq (h : SameEnd before before') :
    productGap before after = productGap before' after := by
  have hall : ∀ rule ∈ gapRules, rule before after = rule before' after := fun _ hr => h.rule_eq hr
  simp only [productGap, anyOf, gapRules, List.any_cons, List.any_nil]
  simp only [gapRules, List.forall_mem_cons] at hall
  obtain ⟨h1, h2, h3, h4, h5, h6, -⟩ := hall
  rw [h1, h2, h3, h4, h5, h6]

/-- Characters after which a rule can match. -/
def endsFactor (c : Char) : Bool := isDigit c || c == ')' || isVariable c

theorem endsFactor_of_rule (hr : rule ∈ gapRules) (h : rule before after = true) :
    before.head?.any endsFactor = true := by
  have hv : endsInVariable before = true → before.head?.any endsFactor = true := by
    cases before with
    | nil => exact fun h => absurd h (by decide)
    | cons c before =>
      rw [endsInVariable, Bool.and_eq_true]
      intro h
      rw [List.head?_cons, Option.any_some, endsFactor, h.1, Bool.or_true]
  have hm : ∀ p : Char → Bool, (∀ c, p c = true → endsFactor c = true) →
      before.head?.any p = true → before.head?.any endsFactor = true := by
    intro p hp h
    obtain ⟨c, hc, hpc⟩ := (Option.any_eq_true _ _).1 h
    exact (Option.any_eq_true _ _).2 ⟨c, hc, hp c hpc⟩
  simp only [gapRules, List.mem_cons, List.not_mem_nil, or_false] at hr
  rcases hr with rfl | rfl | rfl | rfl | rfl | rfl
  · rw [digitThenLetter, Bool.and_eq_true, Bool.and_eq_true] at h
    exact hm isDigit (fun c hc => by simp [endsFactor, hc]) h.1.1
  · rw [digitThenParen, Bool.and_eq_true] at h
    exact hm isDigit (fun c hc => by simp [endsFactor, hc]) h.1
  · rw [parenThenFactor, Bool.and_eq_true, beq_iff_eq] at h
    rw [h.1]
    rfl
  · rw [variableThenParen, Bool.and_eq_true] at h
    exact hv h.1
  · rw [variableThenCall, Bool.and_eq_true] at h
    exact hv h.1
  · rw [variableThenVariable, Bool.and_eq_true] at h
    exact hm isVariable (fun c hc => by simp [endsFactor, hc]) h.1

theorem quiet_of_not_endsFactor (h : before.head?.any endsFactor = false) (after : List Char) :
    Quiet before after := by
  intro rule hr
  by_contra hne
  rw [Bool.not_eq_false] at hne
  rw [endsFactor_of_rule hr hne] at h
  cases h

theorem not_isNameLetter_of_endsFactor (h : endsFactor c = true) : isNameLetter c = false := by
  rw [← Bool.not_eq_true]
  intro hn
  have hv := isVariable_of_isNameLetter hn
  rw [isNameLetter, Bool.and_eq_true, Bool.and_eq_true] at hn
  have hd := not_isDigit_of_isAsciiLetter hn.1.1
  simp only [endsFactor, hd, hv, Bool.false_or, Bool.or_false, beq_iff_eq] at h
  subst h
  cases hn.1.1

/-! ### Letters of names -/

theorem isFormOf_cases (hl : isAsciiLetter letter = true) (h : isFormOf letter c = true) :
    isAsciiLetter c = true ∨ c ∈ foreignLetters := by
  by_cases hc : isAsciiLetter c = true
  · exact .inl hc
  · exact .inr (mem_foreignLetters hl h (Bool.not_eq_true _ ▸ hc))

theorem not_endsFactor_of_foreign (h : c ∈ foreignLetters) : endsFactor c = false := by
  simp only [foreignLetters, List.mem_cons, List.not_mem_nil, or_false] at h
  rcases h with rfl | rfl | rfl <;> decide

/-- A form of a letter ends a factor only if it is a coordinate, and then it is that letter itself. -/
theorem eq_of_isFormOf (hl : isAsciiLetter letter = true) (h : isFormOf letter c = true)
    (he : endsFactor c = true) : c = letter ∧ isVariable c = true := by
  obtain hc | hc := isFormOf_cases hl h
  · have hd := not_isDigit_of_isAsciiLetter hc
    have hp : c ≠ ')' := by
      rintro rfl
      cases hc
    have hv : isVariable c = true := by simpa [endsFactor, hd, hp] using he
    refine ⟨?_, hv⟩
    simp only [isFormOf, Bool.or_eq_true, Bool.and_eq_true, beq_iff_eq] at h
    simp only [isVariable, Bool.or_eq_true, beq_iff_eq] at hv
    obtain ((h | ⟨-, h⟩) | ⟨-, rfl | rfl⟩) | ⟨-, rfl⟩ := h
    · exact h
    · obtain rfl | rfl := hv <;> exact h
    all_goals cases hc
  · rw [not_endsFactor_of_foreign hc] at he
    cases he

theorem isNameLetter_of_isFormOf (hl : letter = 'a' ∨ letter = 'e') (h : isFormOf letter c = true) :
    isNameLetter c = true := by
  have hx : isVariable c ≠ true := fun hv => by
    have he := (eq_of_isFormOf (by rcases hl with rfl | rfl <;> rfl) h (by simp [endsFactor, hv])).1
    subst he
    rcases hl with rfl | rfl <;> cases hv
  have hc : isAsciiLetter c = true := by
    simp only [isFormOf, Bool.or_eq_true, Bool.and_eq_true, beq_iff_eq] at h
    obtain ((rfl | ⟨h, -⟩) | ⟨rfl, -⟩) | ⟨rfl, -⟩ := h
    · rcases hl with rfl | rfl <;> rfl
    · exact h
    · simp at hl
    · simp at hl
  simpa [isNameLetter, isVariable, hc] using hx

/-- Letters that stand side by side in a name: a coordinate is preceded by one of two others. -/
def Precedes (a b : Char) : Prop := isVariable b = true → a = 'a' ∨ a = 'e'

instance : DecidableRel Precedes := fun a b =>
  inferInstanceAs (Decidable (isVariable b = true → a = 'a' ∨ a = 'e'))

theorem spellings_precede : ∀ s ∈ spellings,
    s.1.toList.IsChain Precedes ∧ s.1.toList.head?.any isVariable = false := by
  decide

/-- Where a name can go on without a factor before it. -/
structure Inside (before name : List Char) : Prop where
  ends : before.head?.any endsFactor = true → before.head?.any isVariable = true ∧
    endsInVariable before = false ∧ name.head?.any isVariable = false
  goesOn : name.head?.any isVariable = true → before.head?.any isNameLetter = true

theorem Inside.quiet (h : Inside before name) (hc : isVariable c = true → name.head?.any isVariable)
    (after : List Char) : Quiet before (c :: after) := by
  by_cases he : before.head?.any endsFactor = true
  · obtain ⟨hv, hn, hname⟩ := h.ends he
    have hc : isVariable c = false := by
      rw [← Bool.not_eq_true]
      intro ht
      rw [hc ht] at hname
      cases hname
    cases before with
    | nil => cases he
    | cons d before =>
      rw [List.head?_cons, Option.any_some] at hv
      have hd : isDigit d = false ∧ d ≠ ')' := by
        rw [isVariable, Bool.or_eq_true, beq_iff_eq, beq_iff_eq] at hv
        rcases hv with rfl | rfl <;> exact ⟨by decide, by decide⟩
      rw [quiet_iff]
      simp [digitThenLetter, digitThenParen, parenThenFactor, variableThenParen, variableThenCall,
        variableThenVariable, endsInDigit, hd, hn, hc]
  · exact quiet_of_not_endsFactor (Bool.not_eq_true _ ▸ he) _

theorem Inside.cons (h : Inside before (letter :: name)) (hl : isAsciiLetter letter = true)
    (hn : ∀ next ∈ name.head?, Precedes letter next) (hf : isFormOf letter c = true) :
    Inside (c :: before) name where
  ends he := by
    rw [List.head?_cons, Option.any_some] at he
    obtain ⟨rfl, hv⟩ := eq_of_isFormOf hl hf he
    refine ⟨hv, ?_, ?_⟩
    · rw [endsInVariable, h.goesOn hv, Bool.not_true, Bool.and_false]
    · cases name with
      | nil => rfl
      | cons next name =>
        rw [List.head?_cons, Option.any_some, ← Bool.not_eq_true]
        intro ht
        rcases hn next rfl ht with rfl | rfl <;> cases hv
  goesOn ht := by
    cases name with
    | nil => cases ht
    | cons next name => exact isNameLetter_of_isFormOf (hn next rfl ht) hf

/-! ### What later rules see of earlier ones -/

/-- Whether a text begins with a name and a parenthesis. -/
def callsAfter (name after : List Char) : Bool :=
  (afterName? name after).any fun rest => rest.head? == some '('

theorem startsCall_eq (after : List Char) :
    startsCall after = spellings.any fun s => callsAfter s.1.toList after := by
  refine congrArg spellings.any (funext fun s => ?_)
  rw [callsAfter]
  dsimp only
  cases afterName? s.1.toList after with
  | none => rfl
  | some rest =>
    cases rest with
    | nil => rfl
    | cons c rest =>
      by_cases hc : c = '('
      · subst hc
        rfl
      · simp [hc]

@[simp] theorem callsAfter_nil (after : List Char) :
    callsAfter [] after = (after.head? == some '(') := by
  cases after <;> rfl

@[simp] theorem callsAfter_cons (letter c : Char) (name cs : List Char) :
    callsAfter (letter :: name) (c :: cs) = (isFormOf letter c && callsAfter name cs) := by
  rw [callsAfter, afterName?]
  cases isFormOf letter c <;> rfl

theorem isFormOf_star (hl : isAsciiLetter letter = true) : isFormOf letter '*' = false :=
  isFormOf_eq_false hl (by decide) (by decide)

theorem callsAfter_insertAt (hs : rules ⊆ gapRules)
    (hl : ∀ letter ∈ name, isAsciiLetter letter = true) (hc : name.IsChain Precedes)
    (hi : Inside before name) :
    callsAfter name (insertAt (anyOf rules) before cs) = callsAfter name cs := by
  induction name generalizing before cs with
  | nil =>
    cases cs with
    | nil => rfl
    | cons c cs =>
      rw [callsAfter_nil, callsAfter_nil, insertAt]
      split
      · next hr =>
        have hne : c ≠ '(' := by
          rintro rfl
          rw [anyOf_of_quiet hs (hi.quiet (by decide) cs)] at hr
          cases hr
        simpa using hne
      · rfl
  | cons letter name ih =>
    obtain ⟨hletter, hl⟩ := List.forall_mem_cons.1 hl
    obtain ⟨hn, hc⟩ := List.isChain_cons.1 hc
    cases cs with
    | nil => rfl
    | cons c cs =>
      rw [insertAt]
      split
      · next hr =>
        -- a sign before the letter is seen only where the name does not go on
        have hf : isFormOf letter c = false := by
          rw [← Bool.not_eq_true]
          intro hf
          have hv : isVariable c = true → (letter :: name).head?.any isVariable := fun hv => by
            rw [(eq_of_isFormOf hletter hf (by simp [endsFactor, hv])).1] at hv
            exact hv
          rw [anyOf_of_quiet hs (hi.quiet hv cs)] at hr
          cases hr
        rw [callsAfter_cons, callsAfter_cons, isFormOf_star hletter, hf, Bool.false_and,
          Bool.false_and]
      · rw [callsAfter_cons, callsAfter_cons]
        cases hf : isFormOf letter c with
        | false => rfl
        | true => rw [ih hl hc (hi.cons hletter hn hf)]

theorem startsCall_insertAt (hs : rules ⊆ gapRules) (c : Char) (before cs : List Char) :
    startsCall (c :: insertAt (anyOf rules) (c :: before) cs) = startsCall (c :: cs) := by
  rw [startsCall_eq, startsCall_eq]
  apply Bool.eq_iff_iff.2
  rw [List.any_eq_true, List.any_eq_true]
  refine exists_congr fun s => and_congr_right fun hm => ?_
  obtain ⟨hc, hv⟩ := spellings_precede s hm
  have hl := List.all_eq_true.1 (spellings_letters s hm)
  generalize s.1.toList = name at hc hv hl
  cases name with
  | nil =>
    rw [callsAfter_nil, callsAfter_nil]
    exact Iff.rfl
  | cons letter name =>
    obtain ⟨hletter, hl⟩ := List.forall_mem_cons.1 hl
    obtain ⟨hn, hc⟩ := List.isChain_cons.1 hc
    rw [callsAfter_cons, callsAfter_cons]
    cases hf : isFormOf letter c with
    | false => exact Iff.rfl
    | true =>
      have hi : Inside (c :: before) name := by
        refine ⟨fun he => ?_, fun ht => ?_⟩
        · obtain ⟨rfl, ht⟩ := eq_of_isFormOf hletter hf he
          rw [List.head?_cons, Option.any_some, ht] at hv
          cases hv
        · cases name with
          | nil => cases ht
          | cons next name => exact isNameLetter_of_isFormOf (hn next rfl ht) hf
      rw [callsAfter_insertAt hs hl hc hi]

theorem startsExponent_insertAt (hs : rules ⊆ gapRules) (c : Char) (before cs : List Char) :
    startsExponent (c :: insertAt (anyOf rules) (c :: before) cs) = startsExponent (c :: cs) := by
  cases cs with
  | nil => rfl
  | cons d cs =>
    by_cases he : endsFactor c = true
    · have hne : (c == 'e' || c == 'E') = false := by
        rw [← Bool.not_eq_true, Bool.or_eq_true, beq_iff_eq, beq_iff_eq]
        rintro (rfl | rfl) <;> revert he <;> decide
      have hfalse : ∀ cs, startsExponent (c :: cs) = false := fun cs => by
        cases cs with
        | nil => rfl
        | cons d cs => rw [startsExponent, hne, Bool.false_and]
      rw [hfalse, hfalse]
    · rw [insertAt, anyOf_of_quiet hs (quiet_of_not_endsFactor (by simpa using he) _),
        if_neg Bool.false_ne_true]
      rfl

theorem rule_insertAt (hs : rules ⊆ gapRules) (hr : rule ∈ gapRules) (b before : List Char) :
    rule b (c :: insertAt (anyOf rules) (c :: before) cs) = rule b (c :: cs) := by
  simp only [gapRules, List.mem_cons, List.not_mem_nil, or_false] at hr
  rcases hr with rfl | rfl | rfl | rfl | rfl | rfl
  · rw [digitThenLetter, digitThenLetter, startsExponent_insertAt hs]
    rfl
  · rfl
  · rfl
  · rfl
  · rw [variableThenCall, variableThenCall, startsCall_insertAt hs]
  · rfl

/-! ### All rules at once -/

/-- One more rule after some others is one more rule beside them. -/
theorem insertAt_insertAt (hs : rules ⊆ gapRules) (hr : rule ∈ gapRules)
    (h : SameEnd before before') :
    insertAt rule before' (insertAt (anyOf rules) before cs) =
      insertAt (anyOf (rules ++ [rule])) before cs := by
  have hany : ∀ b a, anyOf (rules ++ [rule]) b a = (anyOf rules b a || rule b a) := by
    intro b a
    rw [anyOf, List.any_append, List.any_cons, List.any_nil, Bool.or_false]
    rfl
  induction cs generalizing before before' with
  | nil => rfl
  | cons c cs ih =>
    rw [insertAt, insertAt, hany]
    by_cases hg : anyOf rules before (c :: cs) = true
    · obtain ⟨r, hrm, hrg⟩ := List.any_eq_true.1 hg
      have he := endsFactor_of_rule (hs hrm) hrg
      have hletter : before.head?.any isNameLetter = false := by
        cases before with
        | nil => rfl
        | cons d before => exact not_isNameLetter_of_endsFactor he
      have hstar : rule before' ('*' :: c :: insertAt (anyOf rules) (c :: before) cs) = false :=
        quiet_mark (by decide) (by decide) (by decide) (by decide) _ _ rule hr
      have hafter : rule ('*' :: before') (c :: insertAt (anyOf rules) (c :: before) cs) = false :=
        quiet_of_not_endsFactor (by simp [endsFactor, isVariable]; decide) _ rule hr
      rw [if_pos hg, hg, Bool.true_or, if_pos rfl, insertAt, hstar, if_neg Bool.false_ne_true,
        insertAt, hafter, if_neg Bool.false_ne_true, ih (sameEnd_cons c hletter)]
    · rw [if_neg hg, insertAt, rule_insertAt hs hr, ← h.rule_eq hr, ih (h.cons c)]
      rw [Bool.not_eq_true] at hg
      rw [hg, Bool.false_or]

theorem insertAt_eq_self (h : ∀ b a, rule b a = false) : insertAt rule before cs = cs := by
  induction cs generalizing before with
  | nil => rfl
  | cons c cs ih => rw [insertAt, h, if_neg Bool.false_ne_true, ih]

/-- Some rules one after the other are the same rules all at once. -/
theorem foldl_insertAt (hs : rules ⊆ gapRules) (cs : List Char) :
    rules.foldl (fun cs rule => insertAt rule [] cs) cs = insertAt (anyOf rules) [] cs := by
  induction rules using List.reverseRecOn with
  | nil => exact (insertAt_eq_self fun _ _ => rfl).symm
  | append_singleton rules rule ih =>
    obtain ⟨hs, hr⟩ := List.append_subset.1 hs
    rw [List.foldl_append, List.foldl_cons, List.foldl_nil, ih hs]
    exact insertAt_insertAt hs (hr List.mem_cons_self) (.refl [])

/-- The rules are applied all at once. -/
theorem insertProducts_eq (cs : List Char) : insertProducts cs = insertAt productGap [] cs :=
  foldl_insertAt (List.Subset.refl _) cs

end Relief.Shorthand
