import Mathlib
import Relief.Proofs.Print.Names
import Relief.Proofs.Scan.Munch

/-!
A printed text whose names are qualified is scanned piece by piece.
-/
namespace Relief.Scan

open Relief.Token

variable {w rest : List Char} {k : Kind} {n : Nat}

theorem scanFrom_token (hn : w ≠ []) (h : lexeme? (w ++ rest) = some (.token k, w.length)) :
    scanFrom n (w ++ rest) = (scanFrom (n + w.length) rest).map (⟨k, n⟩ :: ·) := by
  obtain ⟨c, w, rfl⟩ := List.exists_cons_of_ne_nil hn
  rw [List.cons_append] at h ⊢
  rw [scanFrom, h]
  simp only [List.length_cons, Nat.add_sub_cancel, List.drop_left]
  rfl

theorem scanFrom_blank (hn : w ≠ []) (h : lexeme? (w ++ rest) = some (.blank, w.length)) :
    scanFrom n (w ++ rest) = scanFrom (n + w.length) rest := by
  obtain ⟨c, w, rfl⟩ := List.exists_cons_of_ne_nil hn
  rw [List.cons_append] at h ⊢
  rw [scanFrom, h]
  simp only [List.length_cons, Nat.add_sub_cancel, List.drop_left]

end Relief.Scan

namespace Relief.Expr

open Relief.Text Relief.Number Relief.Scan Relief.Token Relief.Shorthand Piece

variable {p q : Piece} {ps : List Piece} {rest : List Char} {c : Char}

/-! ### Where words end -/

/-- The text does not go on with a word. -/
def EndsWord (rest : List Char) : Prop := ∀ c ∈ rest.head?, c ∈ marks

theorem isMark_of_between (h : Between c) : Scan.IsMark c where
  digit := h.digit
  point := by
    rintro rfl
    cases h.name
  name := by
    rw [← Bool.not_eq_true]
    intro hn
    have hp := h.part
    rw [isNamePart, hn] at hp
    cases hp

theorem EndsWord.number (h : EndsWord rest) : EndsNumber rest := by
  intro c hc
  have hm := isMark_of_between (between_of_mem (h c hc))
  refine ⟨hm.digit, hm.point, ?_⟩
  rw [← Bool.not_eq_true]
  intro he
  simp only [isExponentMark, Bool.or_eq_true, beq_iff_eq] at he
  obtain rfl | rfl := he <;> cases hm.name

theorem EndsWord.name (h : EndsWord rest) : rest.takeWhile isNamePart = [] := by
  cases rest with
  | nil => rfl
  | cons c rest => exact List.takeWhile_cons_of_neg (by simp [(between_of_mem (h c rfl)).part])

/-- What may follow a piece. -/
def Piece.Ends (p : Piece) (rest : List Char) : Prop :=
  match p with
  | .mark c => ∀ d ∈ rest.head?, (c = '*' → d ≠ '*') ∧ (c = ' ' → isBlank d = false)
  | _ => EndsWord rest

theorem ends_nil (p : Piece) : p.Ends [] := by
  cases p <;> (intro d hd; cases hd)

/-- A word begins with a digit or a letter. -/
theorem exists_spelledOut (h : p.Proper) (hm : ¬ p.IsMark) :
    ∃ c w, p.spelledOut = c :: w ∧ (c.isDigit = true ∨ isAsciiLetter c = true) := by
  have hq : ∀ name, ∃ c w, qualified name = c :: w ∧ (c.isDigit = true ∨ isAsciiLetter c = true) := by
    intro name
    rw [qualified, String.toList_append]
    exact ⟨'m', _, rfl, .inr rfl⟩
  cases h with
  | number hw _ =>
    cases hw with
    | intro hn hd _ _ =>
      obtain ⟨c, ds, rfl⟩ := List.exists_cons_of_ne_nil hn
      exact ⟨c, _, rfl, .inl (hd c List.mem_cons_self)⟩
  | constant => exact hq _
  | function => exact hq _
  | coordinate hn =>
    simp only [Token.variableNames, List.mem_cons, List.not_mem_nil, or_false] at hn
    obtain rfl | rfl := hn
    · exact ⟨'x', [], rfl, .inr rfl⟩
    · exact ⟨'y', [], rfl, .inr rfl⟩
  | mark => exact absurd trivial hm

theorem spelledOut_ne_nil (h : p.Proper) : p.spelledOut ≠ [] := by
  by_cases hm : p.IsMark
  · cases h with
    | mark => exact List.cons_ne_nil _ _
    | _ => exact hm.elim
  · obtain ⟨c, w, he, -⟩ := exists_spelledOut h hm
    rw [he]
    exact List.cons_ne_nil _ _

theorem ends_of_meets (hp : p.Proper) (hq : q.Proper) (h : Meets p q) :
    p.Ends (q.spelledOut ++ rest) := by
  by_cases hm : q.IsMark
  · cases hq with
    | @mark d hd =>
      cases hp with
      | @mark c hc =>
        rintro a ⟨⟩
        refine ⟨?_, ?_⟩
        · rintro rfl rfl
          simp [Meets] at h
        · rintro rfl
          apply (between_of_mem hd).blank
          rintro rfl
          simp [Meets] at h
      | _ =>
        rintro a ⟨⟩
        exact hd
    | _ => exact hm.elim
  · obtain ⟨d, w, he, hd⟩ := exists_spelledOut hq hm
    cases hp with
    | @mark c hc =>
      rw [he]
      rintro a ⟨⟩
      refine ⟨fun _ => ?_, fun _ => ?_⟩
      · rintro rfl
        revert hd
        decide
      · exact hd.elim not_isBlank_of_isDigit not_isBlank_of_isAsciiLetter
    | _ => exact absurd (isMark_of_meets id h) hm

theorem nameText_of_letters {w : List Char} (hn : w ≠ []) (h : ∀ c ∈ w, isAsciiLetter c = true) :
    NameText w := by
  have hs : ∀ c ∈ w, isNameStart c = true := fun c hc => by rw [isNameStart, h c hc]; rfl
  obtain ⟨c, w, rfl⟩ := List.exists_cons_of_ne_nil hn
  refine .intro (hs c List.mem_cons_self) fun d hd => ?_
  exact isNamePart_iff.2 (.inl (hs d (List.mem_cons_of_mem _ hd)))

theorem lexeme?_qualifiedName {name : String} (hn : NameText name.toList) (hr : EndsWord rest) :
    lexeme? (qualified name ++ rest) = some (ofQualified name, (qualified name).length) := by
  have hl := lexeme?_qualified hn rest
  rw [hr.name, List.append_nil, String.ofList_toList, ← String.toList_append, ← qualified] at hl
  rw [hl, qualified, String.toList_append, List.length_append]
  rfl

theorem ofQualified_constant {name : String} {v : Float} (h : (name, v) ∈ constants) :
    ofQualified name = .token (.number v) := by
  simp only [constants, List.mem_cons, Prod.mk.injEq, List.not_mem_nil, or_false] at h
  obtain ⟨rfl, rfl⟩ | ⟨rfl, rfl⟩ := h <;> rfl

theorem ofQualified_function {name : String} (h : name ∈ functions.map (·.name)) :
    ofQualified name = .token (.func name) := by
  have hn : ∀ name ∈ functions.map (·.name),
      (constants.lookup name).isNone = true ∧ (function? name).isSome = true := by decide
  obtain ⟨h1, h2⟩ := hn name h
  rw [ofQualified, Option.isNone_iff_eq_none.1 h1]
  exact if_pos h2

/-- A piece is read as its token, whatever may follow it. -/
theorem lexeme?_piece (h : p.Proper) (hs : p ≠ .mark ' ') (he : p.Ends rest) :
    ∃ k, p.kinds = [k] ∧ lexeme? (p.spelledOut ++ rest) = some (.token k, p.spelledOut.length) := by
  cases h with
  | number hw hv =>
    refine ⟨_, rfl, ?_⟩
    rw [← hv]
    exact lexeme?_number (number?_exact hw.numberText he.number)
  | constant hn =>
    refine ⟨_, rfl, ?_⟩
    rw [← ofQualified_constant hn]
    exact lexeme?_qualifiedName (nameText_of_letters (text_ne_nil (.constant hn))
      (isName_constant hn).letters) he
  | function hn =>
    refine ⟨_, rfl, ?_⟩
    rw [← ofQualified_function hn]
    exact lexeme?_qualifiedName (nameText_of_letters (text_ne_nil (.function hn))
      (isName_function hn).letters) he
  | @coordinate name hn =>
    have hv : ∀ name ∈ Token.variableNames, name.toList.all isAsciiLetter = true := by decide
    have ht : NameText name.toList :=
      nameText_of_letters (text_ne_nil (.coordinate hn)) (List.all_eq_true.1 (hv name hn))
    simp only [Token.variableNames, List.mem_cons, List.not_mem_nil, or_false] at hn
    have hq : qualifiedName? (name.toList ++ rest) = none := by
      obtain rfl | rfl := hn <;> exact qualifiedName?_eq_none (by decide)
    have ho : ofName name = .token (.var name) := by
      obtain rfl | rfl := hn <;> rfl
    have hl := lexeme?_name ht hq
    rw [he.name, List.append_nil, String.ofList_toList, ho] at hl
    exact ⟨_, rfl, hl⟩
  | @mark c hc =>
    have hm := isMark_of_between (between_of_mem hc)
    simp only [marks, List.mem_cons, List.not_mem_nil, or_false] at hc
    rcases hc with rfl | rfl | rfl | rfl | rfl | rfl | rfl | rfl | rfl
    case inr.inr.inr.inl =>
      -- the only character that another could continue
      refine ⟨_, rfl, lexeme?_mark hm (symbol?_star ?_)⟩
      rintro r rfl
      exact (he '*' rfl).1 rfl rfl
    case inr.inr.inr.inr.inr.inr.inr.inr => exact absurd rfl hs
    all_goals exact ⟨_, rfl, lexeme?_mark hm rfl⟩

theorem lexeme?_space (h : (Piece.mark ' ').Ends rest) :
    lexeme? (' ' :: rest) = some (.blank, 1) := by
  have hr : rest.takeWhile isBlank = [] := by
    cases rest with
    | nil => rfl
    | cons d rest => exact List.takeWhile_cons_of_neg (by simp [(h d rfl).2 rfl])
  have hb : ∀ c ∈ [' '], isBlank c = true := by
    intro c hc
    obtain rfl := List.mem_singleton.1 hc
    rfl
  have hl := lexeme?_blank (List.cons_ne_nil _ _) hb rest
  rw [hr] at hl
  exact hl

/-! ### Scanning -/

theorem scanFrom_pieces (hp : ∀ p ∈ ps, p.Proper) (hc : ps.IsChain Meets) (n : Nat) :
    ∃ ts, scanFrom n (spelledOutOf ps) = .ok ts ∧ ts.map (·.kind) = kindsOf ps ++ [.finish] := by
  induction ps generalizing n with
  | nil =>
    refine ⟨[⟨.finish, n⟩], ?_, rfl⟩
    rw [spelledOutOf, List.flatMap_nil, scanFrom]
  | cons p ps ih =>
    obtain ⟨hm, hc⟩ := List.isChain_cons.1 hc
    have hpp := hp p List.mem_cons_self
    have ih := ih (fun q hq => hp q (List.mem_cons_of_mem _ hq)) hc
    have he : p.Ends (spelledOutOf ps) := by
      cases ps with
      | nil => exact ends_nil p
      | cons q ps => exact ends_of_meets hpp (hp q (by simp)) (hm q rfl)
    rw [spelledOutOf, List.flatMap_cons, ← spelledOutOf, kindsOf, List.flatMap_cons, ← kindsOf]
    by_cases hs : p = .mark ' '
    · subst hs
      obtain ⟨ts, ht, hk⟩ := ih (n + 1)
      refine ⟨ts, ?_, hk⟩
      rw [← ht]
      exact scanFrom_blank (List.cons_ne_nil _ _) (lexeme?_space he)
    · obtain ⟨k, hpk, hl⟩ := lexeme?_piece hpp hs he
      obtain ⟨ts, ht, hk⟩ := ih (n + p.spelledOut.length)
      refine ⟨⟨k, n⟩ :: ts, ?_, ?_⟩
      · rw [scanFrom_token (spelledOut_ne_nil hpp) hl, ht]
        rfl
      · rw [List.map_cons, hk, hpk]
        rfl

/-- The tokens of a printed text are those of its pieces. -/
theorem munches_phrase (h : Phrase ps) :
    ∃ ts, Munches 0 (spelledOutOf ps) ts ∧ ts.map (·.kind) = kindsOf ps ++ [.finish] := by
  obtain ⟨ts, ht, hk⟩ := scanFrom_pieces h.proper h.chain 0
  exact ⟨ts, scanFrom_eq_ok_iff.1 ht, hk⟩

end Relief.Expr
