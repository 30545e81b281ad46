import Mathlib.Data.List.Chain
import Relief.Proofs.Scan.Spelling
import Relief.Shorthand.Product

/-!
Gaps that no product rule matches. What decides about a gap are a few characters on either side.
-/
namespace Relief.Shorthand

open Relief.Text Relief.Scan

variable {before after cs rest : List Char} {c d : Char}

/-- No rule matches at a gap. -/
def Quiet (before after : List Char) : Prop := ∀ rule ∈ gapRules, rule before after = false

/-- No rule matches at any gap of a text, with what stands before the text. -/
inductive Silent : (before cs : List Char) → Prop where
  | nil {before : List Char} : Silent before []
  | cons {before cs : List Char} {c : Char} : Quiet before (c :: cs) → Silent (c :: before) cs →
    Silent before (c :: cs)

theorem insertAt_of_silent {rule : GapRule} (hr : rule ∈ gapRules) (h : Silent before cs) :
    insertAt rule before cs = cs := by
  induction h with
  | nil => rfl
  | cons hq _ ih =>
    rw [insertAt, if_neg, ih]
    rw [hq rule hr]
    exact Bool.false_ne_true

theorem insertProducts_of_silent (h : Silent [] cs) : insertProducts cs = cs := by
  have hs : ∀ rules : List GapRule, (∀ rule ∈ rules, rule ∈ gapRules) →
      rules.foldl (fun cs rule => insertAt rule [] cs) cs = cs := by
    intro rules hr
    induction rules with
    | nil => rfl
    | cons rule rules ih =>
      rw [List.foldl_cons, insertAt_of_silent (hr rule List.mem_cons_self) h]
      exact ih fun r hm => hr r (List.mem_cons_of_mem _ hm)
  exact hs gapRules fun _ h => h

/-! ### Letters -/

theorem isFormOf_eq_false {letter : Char} (hl : isAsciiLetter letter = true)
    (hc : isAsciiLetter c = false) (h : c.toNat < 128) : isFormOf letter c = false := by
  have h1 : c ≠ letter := by
    rintro rfl
    rw [hl] at hc
    cases hc
  have h2 : ∀ d : Char, 128 ≤ d.toNat → c ≠ d := by
    rintro d hd rfl
    omega
  simp [isFormOf, h1, hc, h2 'İ' (by decide), h2 'ı' (by decide), h2 'ſ' (by decide)]

theorem isVariable_eq_false (h : isAsciiLetter c = false) : isVariable c = false := by
  rw [isVariable, Bool.or_eq_false_iff, beq_eq_false_iff_ne, beq_eq_false_iff_ne]
  constructor <;> rintro rfl <;> cases h

theorem spellings_letter : ∀ s ∈ spellings, s.1.toList.head?.any isAsciiLetter = true := by
  decide

/-- What begins with no form of a letter does not begin with a name. -/
theorem afterName?_spelling {s : String × String} (hs : s ∈ spellings)
    (h : ∀ c ∈ after.head?, ∀ letter, isAsciiLetter letter = true → isFormOf letter c = false) :
    afterName? s.1.toList after = none := by
  obtain ⟨letter, hl, hlet⟩ := (Option.any_eq_true _ _).1 (spellings_letter s hs)
  obtain ⟨letters, he⟩ := List.head?_eq_some_iff.1 hl
  rw [he]
  cases after with
  | nil => rfl
  | cons c cs => rw [afterName?, h c rfl letter hlet, if_neg Bool.false_ne_true]

theorem startsCall_eq_false (h : ∀ c ∈ after.head?, isAsciiLetter c = false ∧ c.toNat < 128) :
    startsCall after = false := by
  rw [startsCall, List.any_eq_false]
  intro s hs
  dsimp only
  rw [afterName?_spelling hs fun c hc letter hl => isFormOf_eq_false hl (h c hc).1 (h c hc).2]
  exact Bool.false_ne_true

/-! ### Quiet gaps -/

theorem quiet_iff : Quiet before after ↔
    digitThenLetter before after = false ∧ digitThenParen before after = false ∧
      parenThenFactor before after = false ∧ variableThenParen before after = false ∧
      variableThenCall before after = false ∧ variableThenVariable before after = false := by
  simp [Quiet, gapRules]

/-- What comes next may be a factor only if what stands before is none. -/
structure Loose (before : List Char) : Prop where
  paren : before.head? ≠ some ')'
  coordinate : endsInVariable before = false

theorem loose_cons (hc : c ≠ ')') (hv : isVariable c = true → before.head?.any isNameLetter = true) :
    Loose (c :: before) where
  paren := by simpa using hc
  coordinate := by
    rw [endsInVariable]
    cases hi : isVariable c with
    | false => rfl
    | true => rw [hv hi]; rfl

/-- Before a character that no factor begins with. -/
theorem quiet_mark (hl : isAsciiLetter c = false) (ha : c.toNat < 128) (hd : isDigit c = false)
    (hp : c ≠ '(') (before cs : List Char) : Quiet before (c :: cs) := by
  have hv := isVariable_eq_false hl
  have hs : startsCall (c :: cs) = false := startsCall_eq_false fun d hd => by
    cases hd
    exact ⟨hl, ha⟩
  rw [quiet_iff]
  simp [digitThenLetter, digitThenParen, parenThenFactor, variableThenParen, variableThenCall,
    variableThenVariable, hl, hd, hp, hs, hv]

/-- Before a digit, the point or the sign of a number. -/
theorem quiet_loose (h : Loose before) (hl : isAsciiLetter c = false) (hp : c ≠ '(')
    (cs : List Char) : Quiet before (c :: cs) := by
  have hv := isVariable_eq_false hl
  rw [quiet_iff]
  simp [digitThenLetter, digitThenParen, parenThenFactor, variableThenParen, variableThenCall,
    variableThenVariable, hl, hp, h.paren, h.coordinate, hv]

/-- Where no factor ends. -/
theorem quiet_start (h : Loose before) (hd : endsInDigit before = false)
    (hv : isVariable c = true → before.head?.any isVariable = false) (cs : List Char) :
    Quiet before (c :: cs) := by
  have hvv : variableThenVariable before (c :: cs) = false := by
    cases hi : isVariable c with
    | false => simp [variableThenVariable, hi]
    | true => simp [variableThenVariable, hv hi]
  rw [quiet_iff]
  simp [digitThenLetter, digitThenParen, parenThenFactor, variableThenParen, variableThenCall,
    h.paren, h.coordinate, hd, hvv]

/-- Before the exponent of a number. -/
theorem quiet_exponent (h : Loose before) (hv : before.head?.any isVariable = false)
    (hs : startsExponent (c :: cs) = true) (hp : c ≠ '(') : Quiet before (c :: cs) := by
  rw [quiet_iff]
  simp [digitThenLetter, digitThenParen, parenThenFactor, variableThenParen, variableThenCall,
    variableThenVariable, h.paren, h.coordinate, hv, hs, hp]

/-! ### Words -/

variable {w v : List Char}

/-- No rule matches at a gap before a character of a word, with what stands around the word. -/
inductive Still : (before w rest : List Char) → Prop where
  | nil {before rest : List Char} : Still before [] rest
  | cons {before w rest : List Char} {c : Char} : Quiet before (c :: (w ++ rest)) →
    Still (c :: before) w rest → Still before (c :: w) rest

theorem Still.silent (h : Still before w rest) (hs : Silent (w.reverse ++ before) rest) :
    Silent before (w ++ rest) := by
  induction h with
  | nil => exact hs
  | cons hq _ ih =>
    rw [List.reverse_cons, List.append_assoc] at hs
    exact .cons hq (ih hs)

theorem Still.append (h : Still before w (v ++ rest)) (hv : Still (w.reverse ++ before) v rest) :
    Still before (w ++ v) rest := by
  induction w generalizing before with
  | nil => exact hv
  | cons c w ih =>
    cases h with
    | cons hq h =>
      rw [← List.append_assoc] at hq
      refine .cons hq (ih h ?_)
      rwa [List.reverse_cons, List.append_assoc] at hv

/-- A character of a number that is not the mark of its exponent. -/
def IsBare (c : Char) : Prop := isAsciiLetter c = false ∧ c ≠ '(' ∧ c ≠ ')'

theorem IsBare.loose (h : IsBare c) : Loose (c :: before) := by
  refine loose_cons h.2.2 fun hv => ?_
  rw [isVariable_eq_false h.1] at hv
  cases hv

theorem loose_bare (hw : ∀ c ∈ w, IsBare c) (h : Loose before)
    (hv : before.head?.any isVariable = false) :
    Loose (w.reverse ++ before) ∧ (w.reverse ++ before).head?.any isVariable = false := by
  induction w generalizing before with
  | nil => exact ⟨h, hv⟩
  | cons c w ih =>
    obtain ⟨hc, hw⟩ := List.forall_mem_cons.1 hw
    rw [List.reverse_cons, List.append_assoc]
    exact ih hw hc.loose (isVariable_eq_false hc.1)

theorem still_bare (hw : ∀ c ∈ w, IsBare c) (h : Loose before) : Still before w rest := by
  induction w generalizing before with
  | nil => exact .nil
  | cons c w ih =>
    obtain ⟨hc, hw⟩ := List.forall_mem_cons.1 hw
    exact .cons (quiet_loose h hc.1 hc.2.1 _) (ih hw hc.loose)

/-- A name in which `x` and `y` only stand after other letters. -/
structure IsName (w : List Char) : Prop where
  letters : ∀ c ∈ w, isAsciiLetter c = true
  first : ∀ c ∈ w.head?, isVariable c = false
  inner : w.IsChain fun a b => isVariable b = true → isNameLetter a = true

theorem isVariable_of_isNameLetter (h : isNameLetter c = true) : isVariable c = false := by
  rw [isNameLetter, Bool.and_eq_true, Bool.and_eq_true, bne_iff_ne, bne_iff_ne] at h
  rw [isVariable, Bool.or_eq_false_iff, beq_eq_false_iff_ne, beq_eq_false_iff_ne]
  exact ⟨h.1.2, h.2⟩

theorem not_isDigit_of_isAsciiLetter (h : isAsciiLetter c = true) : isDigit c = false :=
  not_isDigit_of_isNameStart (by rw [Token.isNameStart, h]; rfl)

theorem loose_letter (hc : isAsciiLetter c = true)
    (hv : isVariable c = true → before.head?.any isNameLetter = true) :
    Loose (c :: before) ∧ endsInDigit (c :: before) = false := by
  refine ⟨loose_cons ?_ hv, not_isDigit_of_isAsciiLetter hc⟩
  rintro rfl
  cases hc

section Letters

variable (hw : ∀ c ∈ w, isAsciiLetter c = true)
  (hf : ∀ c ∈ w.head?, isVariable c = true → before.head?.any isNameLetter = true)
  (hi : w.IsChain fun a b => isVariable b = true → isNameLetter a = true)
  (h : Loose before) (hd : endsInDigit before = false)

include hw hf hi h hd

theorem loose_letters :
    Loose (w.reverse ++ before) ∧ endsInDigit (w.reverse ++ before) = false := by
  induction w generalizing before with
  | nil => exact ⟨h, hd⟩
  | cons c w ih =>
    obtain ⟨hc, hw⟩ := List.forall_mem_cons.1 hw
    obtain ⟨hn, hi⟩ := List.isChain_cons.1 hi
    obtain ⟨hl, hdc⟩ := loose_letter hc (hf c rfl)
    rw [List.reverse_cons, List.append_assoc]
    exact @ih (c :: before) hw hn hi hl hdc

theorem still_letters : Still before w rest := by
  induction w generalizing before with
  | nil => exact .nil
  | cons c w ih =>
    obtain ⟨hc, hw⟩ := List.forall_mem_cons.1 hw
    obtain ⟨hn, hi⟩ := List.isChain_cons.1 hi
    obtain ⟨hl, hdc⟩ := loose_letter hc (hf c rfl)
    refine .cons (quiet_start h hd (fun hv => ?_) _) (ih hw hn hi hl hdc)
    have hn := hf c rfl hv
    cases before with
    | nil => rfl
    | cons b before => exact isVariable_of_isNameLetter hn

end Letters

theorem IsName.head (hw : IsName w) :
    ∀ c ∈ w.head?, isVariable c = true → before.head?.any isNameLetter = true := by
  intro c hc hv
  rw [hw.first c hc] at hv
  cases hv

theorem IsName.loose (hw : IsName w) (h : Loose before) (hd : endsInDigit before = false) :
    Loose (w.reverse ++ before) ∧ endsInDigit (w.reverse ++ before) = false :=
  loose_letters hw.letters hw.head hw.inner h hd

theorem IsName.still (hw : IsName w) (h : Loose before) (hd : endsInDigit before = false) :
    Still before w rest :=
  still_letters hw.letters hw.head hw.inner h hd

end Relief.Shorthand
