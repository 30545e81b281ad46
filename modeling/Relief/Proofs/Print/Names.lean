import Mathlib
import Relief.Proofs.Print.Rewrite

/-!
The names in a printed text are qualified, each in its own pass, and nothing else is.
-/
namespace Relief.Expr

open Relief.Text Relief.Number Relief.Scan Relief.Shorthand Piece

variable {p : Piece} {ps : List Piece} {w rest : List Char} {name : String} {d : Decimal} {c : Char}
  {rule : WordRule} {word : List Char → Except ForeignSpelling (Option (List Char))}

/-- The text of a piece when the names of functions and of some constants are qualified. -/
def Piece.textAfter (done : List String) : Piece → List Char
  | .constant name _ => if name ∈ done then qualified name else name.toList
  | .function name => qualified name
  | p => p.text

/-! ### Runs -/

theorem continuesName_of_isDigit (h : c.isDigit = true) : continuesName c = true := by
  obtain ⟨h1, h2⟩ := Char.isDigit_iff_toNat.1 h
  have hd : ('0' ≤ c && c ≤ '9') = true := by
    rw [Bool.and_eq_true, decide_eq_true_iff, decide_eq_true_iff]
    exact ⟨h1, h2⟩
  rw [continuesName, isWordChar, if_pos (Nat.lt_of_le_of_lt h2 (by decide)), hd]
  simp

theorem isRun_digits {ds : List Char} (h : PlainDigits ds) : IsRun ds := fun c hc =>
  continuesName_of_isDigit (h c hc)

theorem isRun_letters (h : ∀ c ∈ w, isAsciiLetter c = true) : IsRun w := fun c hc =>
  continuesName_of_isAsciiLetter (h c hc)

theorem isRun_qualified (h : IsRun name.toList) : IsRun (qualified name) := by
  have hq : qualifier.toList.all continuesName = true := by decide
  rw [qualified, String.toList_append]
  exact IsRun.append (List.all_eq_true.1 hq) h

theorem isRun_fraction {f fs : List Char} (h : PrintedFraction f fs) : IsRun f := by
  cases h with
  | none => exact fun c hc => absurd hc List.not_mem_nil
  | point hp => exact List.forall_mem_cons.2 ⟨by decide, isRun_digits hp⟩

/-- A number is a run, or two with the sign of its exponent between them. -/
theorem replaceWords_number (h : RunRule rule word)
    (hd : ∀ c w, c.isDigit = true → word (c :: w) = .ok none) (hw : Printed w d)
    (hr : endsName rest = true) :
    replaceWords rule false 0 (w ++ rest) = (replaceWords rule true 0 rest).map (w ++ ·) := by
  have hdn : ∀ {ds w}, PlainDigits ds → ds ≠ [] → word (ds ++ w) = .ok none := by
    intro ds w hds hne
    obtain ⟨c, ds, rfl⟩ := List.exists_cons_of_ne_nil hne
    exact hd c _ (hds c List.mem_cons_self)
  cases hw with
  | @intro ds f fs x e hn hds hf hx =>
    have hrun : IsRun (ds ++ f) := (isRun_digits hds).append (isRun_fraction hf)
    cases hx with
    | none =>
      have hword : word (ds ++ f ++ []) = .ok none := by
        rw [List.append_nil]
        exact hdn hds hn
      exact h.replaceWords (by rwa [List.append_nil]) (by simp [hn]) hr hword
    | @signed e xs hxn hxd he =>
      have hs : continuesName (if e < 0 then '-' else '+') = false := by
        split <;> decide
      have hrune : IsRun (ds ++ f ++ ['e']) :=
        hrun.append (List.forall_mem_singleton.2 (by decide))
      have hword : word (ds ++ f ++ ['e']) = .ok none := by
        rw [List.append_assoc]
        exact hdn hds hn
      have hends : endsName ((if e < 0 then '-' else '+') :: (xs ++ rest)) = true := by
        rw [endsName_cons, hs]
        rfl
      have hxs : word xs = .ok none := by
        rw [← List.append_nil xs]
        exact hdn hxd hxn
      have h1 := h.replaceWords hrune (by simp) hends hword
      rw [replaceWords_cons (.inl rfl), hs, h.replaceWords (isRun_digits hxd) hxn hr hxs] at h1
      rw [List.append_assoc (ds ++ f), List.cons_append, List.cons_append]
      rw [List.append_assoc, List.singleton_append] at h1
      rw [h1]
      cases replaceWords rule true 0 rest with
      | error s => rfl
      | ok r => simp [Except.map]

/-! ### One pass -/

def Piece.IsMark : Piece → Prop
  | .mark _ => True
  | _ => False

/-- A pass that changes the texts of words. -/
structure Pass (rule : WordRule) (t t' : Piece → List Char) : Prop where
  mark : ∀ c cs, continuesName c = false → rule (c :: cs) = .ok none
  text : ∀ c, t (.mark c) = [c]
  text' : ∀ c, t' (.mark c) = [c]
  word : ∀ p : Piece, p.Proper → ¬ p.IsMark → ∀ rest, endsName rest = true →
    replaceWords rule false 0 (t p ++ rest) = (replaceWords rule true 0 rest).map (t' p ++ ·)

theorem isMark_of_meets {p q : Piece} (hp : ¬ p.IsMark) (h : Meets p q) : q.IsMark := by
  cases q with
  | mark c => trivial
  | _ => cases p <;> first | exact h.elim | exact absurd trivial hp

theorem Pass.replaceWords {t t' : Piece → List Char} (h : Pass rule t t')
    (hp : ∀ p ∈ ps, p.Proper) (hc : ps.IsChain Meets) {inside : Bool}
    (hi : inside = true → ∀ p ∈ ps.head?, p.IsMark) :
    replaceWords rule inside 0 (ps.flatMap t) = .ok (ps.flatMap t') := by
  induction ps generalizing inside with
  | nil =>
    rw [List.flatMap_nil, List.flatMap_nil]
    cases inside <;> rfl
  | cons p ps ih =>
    obtain ⟨hm, hc⟩ := List.isChain_cons.1 hc
    have ih := fun {inside} => @ih (fun q hq => hp q (List.mem_cons_of_mem _ hq)) hc inside
    have hpp := hp p List.mem_cons_self
    rw [List.flatMap_cons, List.flatMap_cons]
    by_cases hpm : p.IsMark
    · cases hpp with
      | mark hcm =>
        have hcn := (between_of_mem hcm).name
        rw [h.text, h.text', List.singleton_append, replaceWords_cons (.inr (h.mark _ _ hcn)), hcn,
          ih fun hf => absurd hf Bool.false_ne_true]
        rfl
      | _ => exact hpm.elim
    · have hin : inside = false := by
        rw [← Bool.not_eq_true]
        exact fun hin => hpm (hi hin p rfl)
      have hmark : ∀ q ∈ ps.head?, q.IsMark := fun q hq => isMark_of_meets hpm (hm q hq)
      have hr : endsName (ps.flatMap t) = true := by
        cases ps with
        | nil => rfl
        | cons q ps =>
          cases hp q (List.mem_cons_of_mem _ List.mem_cons_self) with
          | mark hcm =>
            rw [List.flatMap_cons, h.text, List.singleton_append, endsName_cons,
              (between_of_mem hcm).name]
            rfl
          | _ => exact (hmark _ rfl).elim
      subst hin
      rw [h.word p hpp hpm _ hr, ih fun _ => hmark]
      rfl

/-! ### The passes -/

/-- What a pass has to do with a word that is a name. -/
def Turns (word : List Char → Except ForeignSpelling (Option (List Char))) (w w' : List Char) : Prop :=
  IsRun w ∧ w ≠ [] ∧ ∃ r, word w = .ok r ∧ r.getD w = w'

theorem pass_of_runRule {t t' : Piece → List Char} (h : RunRule rule word)
    (hd : ∀ c w, c.isDigit = true → word (c :: w) = .ok none)
    (hm : ∀ c, t (.mark c) = [c] ∧ t' (.mark c) = [c])
    (hn : ∀ w v, t (.number w v) = w ∧ t' (.number w v) = w)
    (hw : ∀ p : Piece, p.Proper → ¬ p.IsMark → (∀ w v, p ≠ .number w v) →
      Turns word (t p) (t' p)) : Pass rule t t' where
  mark _ _ := h.mark
  text c := (hm c).1
  text' c := (hm c).2
  word := by
    intro p hp hpm rest hr
    by_cases hpn : ∃ w v, p = .number w v
    · obtain ⟨w, v, rfl⟩ := hpn
      rw [(hn w v).1, (hn w v).2]
      cases hp with
      | number hw _ => exact replaceWords_number h hd hw hr
    · obtain ⟨hrun, hne, r, hwr, he⟩ := hw p hp hpm fun w v hp => hpn ⟨w, v, hp⟩
      rw [h.replaceWords hrun hne hr hwr, he]

theorem not_isAsciiLetter_of_isDigit (h : c.isDigit = true) : isAsciiLetter c = false :=
  (isBare_of_isDigit h).1

theorem functionWord_digit (c : Char) (w : List Char) (h : c.isDigit = true) :
    functionWord (c :: w) = .ok none := by
  apply functionWord_eq_none
  rintro d ⟨⟩ letter hl
  exact isFormOf_eq_false hl (not_isAsciiLetter_of_isDigit h) (isInk_of_isDigit h).1

theorem pass_function : Pass functionRule Piece.text (textAfter []) := by
  refine pass_of_runRule runRule_function functionWord_digit (fun c => ⟨rfl, rfl⟩)
    (fun w v => ⟨rfl, rfl⟩) fun p hp hpm hpn => ?_
  have hf : ∀ name ∈ functions.map (·.name),
      functionWord name.toList = .ok (some (qualified name)) := by decide
  cases hp with
  | number => exact absurd rfl (hpn _ _)
  | mark => exact absurd trivial hpm
  | function hn =>
    exact ⟨isRun_letters (isName_function hn).letters, text_ne_nil (.function hn), _, hf _ hn, rfl⟩
  | constant hn =>
    refine ⟨isRun_letters (isName_constant hn).letters, text_ne_nil (.constant hn), none, ?_, rfl⟩
    simp only [constants, List.mem_cons, Prod.mk.injEq, List.not_mem_nil, or_false] at hn
    obtain ⟨rfl, -⟩ | ⟨rfl, -⟩ := hn <;> rfl
  | coordinate hn =>
    simp only [Token.variableNames, List.mem_cons, List.not_mem_nil, or_false] at hn
    obtain rfl | rfl := hn
    · exact ⟨isRun_letters fun c hc => by obtain rfl := List.mem_singleton.1 hc; rfl, by decide, none,
        rfl, rfl⟩
    · exact ⟨isRun_letters fun c hc => by obtain rfl := List.mem_singleton.1 hc; rfl, by decide, none,
        rfl, rfl⟩

theorem letters_constantName (h : name ∈ constantNames) :
    (∀ c ∈ name.toList, isAsciiLetter c = true) ∧ name.toList ≠ [] := by
  have hn : ∀ name ∈ constantNames, name.toList.all isAsciiLetter = true ∧ name.toList ≠ [] := by
    decide
  exact ⟨List.all_eq_true.1 (hn name h).1, (hn name h).2⟩

theorem qualified_ne_nil (name : String) : qualified name ≠ [] := by
  rw [qualified, String.toList_append]
  exact List.cons_ne_nil _ _

/-- A name without a point is not qualified. -/
theorem constantWord_qualified (h : name ∈ constantNames) (other : String) :
    constantWord name (qualified other) = none := by
  refine if_neg fun he => ?_
  have hp : '.' ∈ qualified other := by
    rw [qualified, String.toList_append]
    exact List.mem_append_left _ (by decide)
  cases (letters_constantName h).1 '.' (he ▸ hp)

theorem turns_qualified (h : name ∈ constantNames) {other : String} (hr : IsRun other.toList) :
    Turns (fun w => .ok (constantWord name w)) (qualified other) (qualified other) :=
  ⟨isRun_qualified hr, qualified_ne_nil _, none, congrArg _ (constantWord_qualified h other), rfl⟩

theorem constantWord_ne {other : String} (h : other ≠ name) : constantWord name other.toList = none :=
  if_neg fun he => h (String.toList_inj.1 he)

theorem pass_constant (h : name ∈ constantNames) (done : List String) (hd : name ∉ done) :
    Pass (constantRule name) (textAfter done) (textAfter (done ++ [name])) := by
  obtain ⟨hl, hne⟩ := letters_constantName h
  refine pass_of_runRule (runRule_constant (isRun_letters hl) hne) (fun c w hc => ?_)
    (fun c => ⟨rfl, rfl⟩) (fun w v => ⟨rfl, rfl⟩) fun p hp hpm hpn => ?_
  · refine congrArg _ (if_neg fun he => ?_)
    have := hl c (he ▸ List.mem_cons_self)
    rw [not_isAsciiLetter_of_isDigit hc] at this
    cases this
  cases hp with
  | number => exact absurd rfl (hpn _ _)
  | mark => exact absurd trivial hpm
  | function hn => exact turns_qualified h (isRun_letters (isName_function hn).letters)
  | @coordinate v hn =>
    have hv : ∀ v ∈ Token.variableNames, v ∉ constantNames ∧ v.toList ≠ [] ∧
        v.toList.all isAsciiLetter = true := by decide
    obtain ⟨h1, h2, h3⟩ := hv v hn
    have hkept := constantWord_ne fun he : v = name => h1 (he ▸ h)
    exact ⟨isRun_letters (List.all_eq_true.1 h3), h2, none, congrArg _ hkept, rfl⟩
  | @constant other v hn =>
    have hrun := isRun_letters (isName_constant hn).letters
    have hne' : other.toList ≠ [] := text_ne_nil (.constant hn)
    simp only [textAfter]
    by_cases hdone : other ∈ done
    · rw [if_pos hdone, if_pos (List.mem_append_left _ hdone)]
      exact turns_qualified h hrun
    rw [if_neg hdone]
    by_cases he : other = name
    · subst he
      rw [if_pos (List.mem_append_right _ List.mem_cons_self)]
      exact ⟨hrun, hne', _, congrArg _ (if_pos rfl), rfl⟩
    · rw [if_neg (by simp [hdone, he])]
      exact ⟨hrun, hne', none, congrArg _ (constantWord_ne he), rfl⟩

/-! ### All passes -/

theorem textAfter_constantNames (hp : p.Proper) : textAfter constantNames p = p.spelledOut := by
  cases hp with
  | constant hn =>
    have hc : ∀ name ∈ constants.map (·.1), name ∈ constantNames := by decide
    exact if_pos (hc _ (List.mem_map_of_mem hn))
  | _ => rfl

theorem qualify_constants (h : Phrase ps) {names done : List String}
    (hn : ∀ name ∈ names, name ∈ constantNames) (hd : (done ++ names).Nodup) :
    names.foldlM (fun cs name => replaceWords (constantRule name) false 0 cs)
      (ps.flatMap (textAfter done)) = .ok (ps.flatMap (textAfter (done ++ names))) := by
  induction names generalizing done with
  | nil => rw [List.append_nil, List.foldlM_nil]; rfl
  | cons name names ih =>
    have hdone : name ∉ done := fun hm =>
      (List.nodup_append.1 hd).2.2 name hm name List.mem_cons_self rfl
    have hp := (pass_constant (hn name List.mem_cons_self) done hdone).replaceWords h.proper h.chain
      fun hi => absurd hi Bool.false_ne_true
    have ih := @ih (done ++ [name]) fun n hm => hn n (List.mem_cons_of_mem _ hm)
    rw [List.append_assoc, List.singleton_append] at ih
    rw [List.foldlM_cons, hp]
    exact ih hd

/-- Qualifying the names of a printed text spells it out. -/
theorem qualifyNames_phrase (h : Phrase ps) : qualifyNames (textOf ps) = .ok (spelledOutOf ps) := by
  have hf := pass_function.replaceWords h.proper h.chain fun hi => absurd hi Bool.false_ne_true
  have hs : ps.flatMap (textAfter constantNames) = spelledOutOf ps :=
    List.flatMap_congr fun p hp => textAfter_constantNames (h.proper p hp)
  have hc := qualify_constants h (fun _ hn => hn) (show ([] ++ constantNames).Nodup by decide)
  rw [List.nil_append, hs] at hc
  rw [qualifyNames, textOf, hf]
  exact hc

end Relief.Expr
