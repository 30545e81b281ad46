import Mathlib
import Relief.Proofs.Shorthand.Renaming

/-!
Where no sign for a product was missing, none is missing after names have been qualified. A run that
stays has the same gaps as before, and a qualified name has none.
-/
namespace Relief.Shorthand

open Relief.Text Relief.Scan

variable {before before' w w' v v' cs cs' : List Char} {c : Char} {name : String} {rule : GapRule}

/-! ### Characters of names -/

/-- The digits of every script continue a name. -/
theorem continuesName_of_isDigit (h : isDigit c = true) : continuesName c = true := by
  by_cases hc : c.toNat < 128
  · exact continuesName_of_isDigit_of_lt h hc
  · obtain ⟨z, hz, h1, h2⟩ := exists_zero_of_isDigit h
    have hall : (zeros.all fun z => (z + 9).blt 128 ||
        alphanumericRanges.any fun r => r.1.ble z && (z + 9).ble r.2) = true := by
      decide +kernel
    have hz := List.all_eq_true.1 hall z hz
    simp only [Bool.or_eq_true, Nat.blt_eq, List.any_eq_true, Bool.and_eq_true, Nat.ble_eq] at hz
    obtain ⟨r, hr, hzr⟩ := hz.resolve_left (by omega)
    have hword : isWordChar c = true := by
      rw [isWordChar, if_neg hc, Ranges.contains_iff]
      exact ⟨r, hr, by omega, by omega⟩
    rw [continuesName, hword]
    rfl

theorem not_isVariable_of_mark (h : continuesName c = false) : isVariable c = false := by
  rw [← Bool.not_eq_true]
  intro hv
  simp only [isVariable, Bool.or_eq_true, beq_iff_eq] at hv
  obtain rfl | rfl := hv <;> cases h

/-! ### After a run -/

section Rest

variable {rest rest' : List Char} (hh : rest.head? = rest'.head?) (hr : endsName rest = true)

include hh

theorem head?_append_rest (w : List Char) : (w ++ rest).head? = (w ++ rest').head? := by
  rw [List.head?_append, List.head?_append, hh]

include hr

theorem startsExponent_rest (w : List Char) :
    startsExponent (w ++ rest) = startsExponent (w ++ rest') := by
  have hmark : ∀ {c v}, endsName (c :: v) = true → startsExponent (c :: v) = false := by
    intro c v he
    have hc : (c == 'e' || c == 'E') = false := by
      rw [← Bool.not_eq_true, Bool.or_eq_true, beq_iff_eq, beq_iff_eq]
      rintro (rfl | rfl) <;> cases he
    cases v with
    | nil => rfl
    | cons d v => rw [startsExponent, hc, Bool.false_and]
  cases rest with
  | nil => rw [List.head?_eq_none_iff.1 hh.symm]
  | cons c v =>
    obtain ⟨v', rfl⟩ := List.head?_eq_some_iff.1 hh.symm
    cases w with
    | nil => exact (hmark hr).trans (hmark (c := c) (v := v') hr).symm
    | cons a w => cases w <;> rfl

theorem startsCall_rest (w : List Char) : startsCall (w ++ rest) = startsCall (w ++ rest') := by
  have hr' : endsName rest' = true := by
    rw [endsName, ← hh]
    exact hr
  rw [startsCall_eq, startsCall_eq, Bool.eq_iff_iff, List.any_eq_true, List.any_eq_true]
  refine exists_congr fun s => and_congr_right fun hs => ?_
  have hl := List.all_eq_true.1 (spellings_letters s hs)
  rw [callsAfter, callsAfter, afterName?_append hl hr, afterName?_append hl hr', Option.any_map,
    Option.any_map]
  have hf : (fun r => (r ++ rest).head? == some '(') = fun r => (r ++ rest').head? == some '(' :=
    funext fun r => by rw [head?_append_rest hh]
  exact iff_of_eq (congrArg (fun f => Option.any f _ = true) hf)

/-- Of what follows a run, no rule sees more than the first character. -/
theorem rule_rest (hm : rule ∈ gapRules) (w : List Char) :
    rule before (w ++ rest) = rule before (w ++ rest') := by
  simp only [gapRules, List.mem_cons, List.not_mem_nil, or_false] at hm
  rcases hm with rfl | rfl | rfl | rfl | rfl | rfl
  · rw [digitThenLetter, digitThenLetter, startsExponent_rest hh hr, head?_append_rest hh]
  · rw [digitThenParen, digitThenParen, head?_append_rest hh]
  · rw [parenThenFactor, parenThenFactor, head?_append_rest hh]
  · rw [variableThenParen, variableThenParen, head?_append_rest hh]
  · rw [variableThenCall, variableThenCall, startsCall_rest hh hr]
  · rw [variableThenVariable, variableThenVariable, head?_append_rest hh]

theorem Quiet.sameRest (h : Quiet before (w ++ rest)) (he : SameEnd before before') :
    Quiet before' (w ++ rest') := by
  intro rule hm
  rw [← rule_rest hh hr hm, ← he.rule_eq hm]
  exact h rule hm

theorem Still.sameRest (h : Still before w rest) (he : SameEnd before before') :
    Still before' w rest' := by
  induction w generalizing before before' with
  | nil => exact .nil
  | cons c w ih =>
    cases h with
    | cons hq h => exact .cons (@Quiet.sameRest _ _ (c :: w) _ _ hh hr hq he) (ih h (he.cons c))

end Rest

theorem Silent.split (h : Silent before (w ++ v)) :
    Still before w v ∧ Silent (w.reverse ++ before) v := by
  induction w generalizing before with
  | nil => exact ⟨.nil, h⟩
  | cons c w ih =>
    cases h with
    | cons hq h =>
      obtain ⟨hw, hv⟩ := ih h
      rw [List.reverse_cons, List.append_assoc]
      exact ⟨.cons hq hw, hv⟩

theorem quiet_nil (before : List Char) : Quiet before [] := by
  rw [quiet_iff]
  simp [digitThenLetter, digitThenParen, parenThenFactor, variableThenParen, variableThenCall,
    variableThenVariable, show startsCall [] = false by decide]

theorem Silent.quiet (h : Silent before cs) : Quiet before cs := by
  cases h with
  | nil => exact quiet_nil before
  | cons hq _ => exact hq

theorem SameEnd.symm (h : SameEnd before before') : SameEnd before' before :=
  ⟨h.digit.symm, h.paren.symm, h.factor.symm, h.coordinate.symm, h.letter.symm⟩

/-- A mark is no coordinate, so nothing before it is seen after it. -/
theorem sameEnd_mark (hc : continuesName c = false) (before before' : List Char) :
    SameEnd (c :: before) (c :: before') := by
  refine ⟨rfl, rfl, ?_, rfl, rfl⟩
  rw [endsInVariable, endsInVariable, not_isVariable_of_mark hc]
  rfl

theorem SameEnd.append (h : SameEnd before before') (w : List Char) :
    SameEnd (w ++ before) (w ++ before') := by
  induction w with
  | nil => exact h
  | cons c w ih => exact ih.cons c

theorem SameEnd.endsFactor_eq (h : SameEnd before before') :
    before.head?.any endsFactor = before'.head?.any endsFactor := by
  have hsplit : ∀ b : List Char, b.head?.any endsFactor =
      (endsInDigit b || (b.head? == some ')') || b.head?.any isVariable) := by
    intro b
    cases b with
    | nil => rfl
    | cons c b => simp [endsFactor, endsInDigit]
  rw [hsplit, hsplit, h.digit, h.paren, h.coordinate]

/-! ### Names -/

/-- After a name no rule matches where it ends. -/
theorem quiet_of_endsName (hl : Loose before) (hd : endsInDigit before = false)
    (hr : endsName cs = true) : Quiet before cs := by
  cases cs with
  | nil => exact quiet_nil before
  | cons c cs =>
    rw [endsName_cons, Bool.not_eq_true'] at hr
    refine quiet_start hl hd (fun hv => ?_) cs
    rw [not_isVariable_of_mark hr] at hv
    cases hv

/-- Before a name that stands for itself there is no factor, or a sign would have been put in. -/
theorem not_endsFactor_of_quiet (hb : before.head?.any continuesName = false)
    (hc : isAsciiLetter c = true) (h : Quiet before (c :: cs)) :
    before.head?.any endsFactor = false := by
  cases before with
  | nil => rfl
  | cons b before =>
    rw [List.head?_cons, Option.any_some] at hb ⊢
    rw [← Bool.not_eq_true]
    intro he
    simp only [endsFactor, isVariable, Bool.or_eq_true, beq_iff_eq] at he
    obtain (hd | rfl) | rfl | rfl := he
    · rw [continuesName_of_isDigit hd] at hb
      cases hb
    · have hp := (quiet_iff.1 h).2.2.1
      simp [parenThenFactor, hc] at hp
    all_goals cases hb

theorem isName_qualifiedNames (h : name ∈ qualifiedNames) : IsName name.toList := by
  have hall : ∀ name ∈ qualifiedNames, name.toList.head?.any isVariable = false ∧
      name.toList.IsChain fun a b => isVariable b = true → isNameLetter a = true := by decide
  obtain ⟨hf, hi⟩ := hall name h
  refine ⟨letters_qualifiedNames h, fun c hc => ?_, hi⟩
  rwa [Option.mem_def.1 hc] at hf

theorem loose_of_not_endsFactor (h : before.head?.any endsFactor = false) :
    Loose before ∧ endsInDigit before = false := by
  cases before with
  | nil => exact ⟨⟨nofun, rfl⟩, rfl⟩
  | cons b before =>
    simp only [List.head?_cons, Option.any_some, endsFactor, Bool.or_eq_false_iff,
      beq_eq_false_iff_ne] at h
    refine ⟨loose_cons h.1.2 fun hv => ?_, h.1.1⟩
    rw [h.2] at hv
    cases hv

/-- No rule matches within a word none of whose characters ends a factor. -/
theorem still_of_not_endsFactor (hw : ∀ c ∈ w, endsFactor c = false)
    (hb : before.head?.any endsFactor = false) (rest : List Char) :
    Still before w rest ∧ (w.reverse ++ before).head?.any endsFactor = false := by
  induction w generalizing before with
  | nil => exact ⟨.nil, hb⟩
  | cons c w ih =>
    obtain ⟨hc, hw⟩ := List.forall_mem_cons.1 hw
    have h := @ih (c :: before) hw hc
    rw [List.reverse_cons, List.append_assoc]
    exact ⟨.cons (quiet_of_not_endsFactor hb _) h.1, h.2⟩

/-- A qualified name brings no gap with it. -/
theorem still_qualified (hn : name ∈ qualifiedNames) (hb : before.head?.any endsFactor = false)
    (rest : List Char) : Still before (qualified name) rest ∧
      Loose ((qualified name).reverse ++ before) ∧
      endsInDigit ((qualified name).reverse ++ before) = false := by
  have hq : ∀ c ∈ qualifier.toList, endsFactor c = false := by
    have hall : qualifier.toList.all (!endsFactor ·) = true := by decide
    simpa using hall
  obtain ⟨hs, hb⟩ := still_of_not_endsFactor hq hb (name.toList ++ rest)
  obtain ⟨hl, hd⟩ := loose_of_not_endsFactor hb
  have hname := isName_qualifiedNames hn
  rw [qualified, String.toList_append, List.reverse_append, List.append_assoc]
  exact ⟨hs.append (hname.still hl hd), hname.loose hl hd⟩

theorem Renamed.quiet {rest rest' : List Char} (h : Renamed w w')
    (hb : before.head?.any continuesName = false) (he : SameEnd before before')
    (hs : Silent before (w ++ rest)) (hh : rest.head? = rest'.head?) (hr : endsName rest = true) :
    Still before' w' rest' ∧ Quiet (w'.reverse ++ before') rest' := by
  obtain ⟨hw, hrest⟩ := hs.split
  cases h with
  | kept _ =>
    exact ⟨hw.sameRest hh hr he, @Quiet.sameRest _ _ [] _ _ hh hr hrest.quiet (he.append _)⟩
  | named hne hl hn _ =>
    obtain ⟨c, w, rfl⟩ := List.exists_cons_of_ne_nil hne
    have hf := not_endsFactor_of_quiet hb (hl c List.mem_cons_self) hs.quiet
    rw [he.endsFactor_eq] at hf
    obtain ⟨hstill, hloose, hdigit⟩ := still_qualified hn hf rest'
    rw [endsName, hh] at hr
    exact ⟨hstill, quiet_of_endsName hloose hdigit hr⟩

/-- Where no sign was missing, none is missing after names have been qualified. -/
theorem Qualified.silent (h : Qualified cs cs') (hb : before.head?.any continuesName = false)
    (he : SameEnd before before') (hs : Silent before cs) : Silent before' cs' := by
  induction h generalizing before before' with
  | @run w w' hw hr =>
    rw [← List.append_nil w] at hs
    rw [← List.append_nil w']
    exact (hr.quiet hb he hs rfl rfl).1.silent .nil
  | @mark w w' v v' c hw hr hc _ ih =>
    have hend : endsName (c :: v) = true := by
      rw [endsName_cons, hc]
      rfl
    obtain ⟨hstill, hquiet⟩ := hr.quiet hb he hs (show (c :: v).head? = (c :: v').head? from rfl) hend
    obtain ⟨-, hrest⟩ := hs.split
    cases hrest with
    | cons _ hrest =>
      exact hstill.silent (.cons hquiet (@ih (c :: _) _ hc (sameEnd_mark hc _ _) hrest))

end Relief.Shorthand
