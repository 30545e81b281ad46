import Mathlib
import Relief.Proofs.Print.Piece
import Relief.Proofs.Shorthand.Glyph
import Relief.Proofs.Shorthand.Qualify

/-!
Printed text is shorthand for itself: no stage changes it but for the names, which are qualified.
-/
namespace Relief.Expr

open Relief.Text Relief.Number Relief.Scan Relief.Shorthand Piece

variable {p q : Piece} {ps : List Piece} {w before rest : List Char} {name : String} {d : Decimal}
  {c : Char}

/-! ### Words -/

theorem isName_of_tests (hl : name.toList.all isAsciiLetter = true)
    (hf : name.toList.head?.any isVariable = false)
    (hi : name.toList.IsChain fun a b => isVariable b = true → isNameLetter a = true) :
    IsName name.toList := by
  refine ⟨List.all_eq_true.1 hl, fun c hc => ?_, hi⟩
  rw [Option.mem_def.1 hc] at hf
  exact hf

/-- The names of functions and constants. -/
theorem isName_of_mem (h : name ∈ functions.map (·.name) ++ constants.map (·.1)) : IsName name.toList := by
  have hn : ∀ name ∈ functions.map (·.name) ++ constants.map (·.1),
      name.toList.all isAsciiLetter = true ∧ name.toList.head?.any isVariable = false ∧
      name.toList.IsChain fun a b => isVariable b = true → isNameLetter a = true := by decide
  obtain ⟨h1, h2, h3⟩ := hn name h
  exact isName_of_tests h1 h2 h3

theorem isName_function (h : name ∈ functions.map (·.name)) : IsName name.toList :=
  isName_of_mem (List.mem_append_left _ h)

theorem isName_constant {v : Float} (h : (name, v) ∈ constants) : IsName name.toList :=
  isName_of_mem (List.mem_append_right _ (List.mem_map_of_mem h))

theorem isBare_of_isDigit (h : c.isDigit = true) : IsBare c := by
  obtain ⟨h1, h2⟩ := Char.isDigit_iff_toNat.1 h
  have h1 : 48 ≤ c.toNat := h1
  have h2 : c.toNat ≤ 57 := h2
  refine ⟨?_, ?_, ?_⟩
  · rw [← Bool.not_eq_true, isAsciiLetter_iff]
    omega
  · rintro rfl
    exact absurd h1 (by decide)
  · rintro rfl
    exact absurd h1 (by decide)

theorem isBare_digits {ds : List Char} (h : PlainDigits ds) : ∀ c ∈ ds, IsBare c :=
  fun c hc => isBare_of_isDigit (h c hc)

theorem isBare_fraction {f fs : List Char} (h : PrintedFraction f fs) : ∀ c ∈ f, IsBare c := by
  cases h with
  | none => simp
  | point hp => exact List.forall_mem_cons.2 ⟨⟨rfl, by decide, by decide⟩, isBare_digits hp⟩

/-! ### No product is inserted -/

/-- Where a word may begin. -/
structure Fresh (before : List Char) : Prop where
  loose : Loose before
  digit : endsInDigit before = false
  coordinate : before.head?.any isVariable = false

theorem silent_number (hw : Printed w d) (h : Fresh before)
    (hs : Silent (w.reverse ++ before) rest) : Silent before (w ++ rest) := by
  cases hw with
  | @intro ds f fs x e hn hd hf hx =>
    have hb : ∀ c ∈ ds ++ f, IsBare c := fun c hc =>
      (List.mem_append.1 hc).elim (isBare_digits hd c) (isBare_fraction hf c)
    rw [List.append_assoc]
    apply (still_bare hb h.loose).silent
    obtain ⟨hl, hv⟩ := loose_bare hb h.loose h.coordinate
    cases hx with
    | none => simpa using hs
    | @signed e xs hxn hxd he =>
      have hse : ∀ cs, startsExponent ('e' :: (if e < 0 then '-' else '+') :: cs) = true := by
        intro cs
        split <;> rfl
      have hsb : ∀ c ∈ (if e < 0 then '-' else '+') :: xs, IsBare c := by
        refine List.forall_mem_cons.2 ⟨?_, isBare_digits hxd⟩
        split <;> exact ⟨rfl, by decide, by decide⟩
      rw [List.cons_append, List.cons_append]
      refine .cons (quiet_exponent hl hv (hse _) (by decide)) ?_
      refine (still_bare hsb (loose_cons (by decide) fun hv => absurd hv (by decide))).silent ?_
      simpa using hs

theorem silent_mark (hc : c ∈ marks) (hp : c ≠ '(')
    (hs : Silent (c :: before) rest) : Silent before (c :: rest) := by
  have hb := between_of_mem hc
  exact .cons (quiet_mark hb.letter hb.ascii hb.digit hp before rest) hs

/-- What may stand before a piece. -/
def Ready (before : List Char) : Piece → Prop
  | .mark c => c = '(' → Loose before ∧ endsInDigit before = false
  | _ => Fresh before

theorem silent_piece (hp : p.Proper) (h : Ready before p)
    (hs : Silent (p.text.reverse ++ before) rest) : Silent before (p.text ++ rest) := by
  cases hp with
  | number hw _ => exact silent_number hw h hs
  | constant hn => exact ((isName_constant hn).still h.loose h.digit).silent hs
  | coordinate hn =>
    simp only [Token.variableNames, List.mem_cons, List.not_mem_nil, or_false] at hn
    obtain rfl | rfl := hn
    · exact .cons (quiet_start h.loose h.digit (fun _ => h.coordinate) _) hs
    · exact .cons (quiet_start h.loose h.digit (fun _ => h.coordinate) _) hs
  | function hn => exact ((isName_function hn).still h.loose h.digit).silent hs
  | @mark c hc =>
    by_cases ho : c = '('
    · obtain ⟨hl, hd⟩ := h ho
      subst ho
      exact .cons (quiet_start hl hd (fun hv => absurd hv (by decide)) _) hs
    · exact silent_mark hc ho hs

theorem ready_of_meets (hp : p.Proper) (h : Ready before p) (hm : Meets p q) :
    Ready (p.text.reverse ++ before) q := by
  cases hp with
  | @mark c hc =>
    have hb := between_of_mem hc
    have hv := isVariable_eq_false hb.letter
    have hl : c ≠ ')' → Loose (c :: before) := fun hn => loose_cons hn fun ht => by
      rw [hv] at ht
      cases ht
    cases q with
    | mark d =>
      rintro rfl
      exact ⟨hl (by rintro rfl; simp [Meets] at hm), hb.digit⟩
    | _ => exact ⟨hl hm, hb.digit, hv⟩
  | function hn =>
    cases q with
    | mark d => exact fun _ => (isName_function hn).loose h.loose h.digit
    | _ => exact hm.elim
  | _ =>
    cases q with
    | mark d => exact fun hd => absurd hd hm
    | _ => exact hm.elim

theorem silent_pieces (hp : ∀ p ∈ ps, p.Proper) (hc : ps.IsChain Meets)
    (h : ∀ p ∈ ps.head?, Ready before p) : Silent before (textOf ps) := by
  induction ps generalizing before with
  | nil => exact .nil
  | cons p ps ih =>
    have hpp := hp p List.mem_cons_self
    have hr := h p rfl
    obtain ⟨hm, hc⟩ := List.isChain_cons.1 hc
    refine silent_piece hpp hr (ih (fun q hq => hp q (List.mem_cons_of_mem _ hq)) hc fun q hq => ?_)
    exact ready_of_meets hpp hr (hm q hq)

theorem insertProducts_phrase (h : Phrase ps) : insertProducts (textOf ps) = textOf ps := by
  refine insertProducts_of_silent (silent_pieces h.proper h.chain fun p _ => ?_)
  have hl : Loose [] := ⟨by simp, rfl⟩
  cases p with
  | mark c => exact fun _ => ⟨hl, rfl⟩
  | _ => exact ⟨hl, rfl, rfl⟩

/-! ### Nothing is normalized -/

theorem not_isBlank_of_isAsciiLetter (h : isAsciiLetter c = true) : isBlank c = false := by
  rw [← Bool.not_eq_true]
  intro hb
  have hn := not_isNameStart_of_isBlank hb
  rw [Token.isNameStart, h] at hn
  cases hn

theorem not_isBlank_of_isDigit (h : c.isDigit = true) : isBlank c = false := by
  rw [← Bool.not_eq_true]
  intro hb
  have hn := not_isDigit_of_isBlank hb
  rw [isDigit, digit?_of_isDigit h] at hn
  cases hn

/-- ASCII and not blank. -/
def IsInk (c : Char) : Prop := c.toNat < 128 ∧ isBlank c = false

theorem isInk_of_isAsciiLetter (h : isAsciiLetter c = true) : IsInk c := by
  have hc := isAsciiLetter_iff.1 h
  exact ⟨by omega, not_isBlank_of_isAsciiLetter h⟩

theorem isInk_of_isDigit (h : c.isDigit = true) : IsInk c := by
  obtain ⟨-, h2⟩ := Char.isDigit_iff_toNat.1 h
  exact ⟨Nat.lt_of_le_of_lt h2 (by decide), not_isBlank_of_isDigit h⟩

theorem isInk_number (h : Printed w d) : ∀ c ∈ w, IsInk c := by
  have hd : ∀ {ds : List Char}, PlainDigits ds → ∀ c ∈ ds, IsInk c := fun h c hc =>
    isInk_of_isDigit (h c hc)
  cases h with
  | intro hn hds hf hx =>
    intro c hc
    rw [List.mem_append, List.mem_append] at hc
    obtain (hc | hc) | hc := hc
    · exact hd hds c hc
    · cases hf with
      | none => cases hc
      | point hfs =>
        obtain rfl | hc := List.mem_cons.1 hc
        · exact ⟨by decide, by decide⟩
        · exact hd hfs c hc
    · cases hx with
      | none => cases hc
      | signed hxn hxs he =>
        rw [List.mem_cons, List.mem_cons] at hc
        obtain rfl | rfl | hc := hc
        · exact ⟨by decide, by decide⟩
        · split <;> exact ⟨by decide, by decide⟩
        · exact hd hxs c hc

theorem isInk_text (h : p.Proper) (hp : p ≠ .mark ' ') : ∀ c ∈ p.text, IsInk c := by
  cases h with
  | number hw _ => exact isInk_number hw
  | constant hn => exact fun c hc => isInk_of_isAsciiLetter ((isName_constant hn).letters c hc)
  | function hn => exact fun c hc => isInk_of_isAsciiLetter ((isName_function hn).letters c hc)
  | coordinate hn =>
    simp only [Token.variableNames, List.mem_cons, List.not_mem_nil, or_false] at hn
    obtain rfl | rfl := hn
    · exact fun c hc => isInk_of_isAsciiLetter (by obtain rfl := List.mem_singleton.1 hc; rfl)
    · exact fun c hc => isInk_of_isAsciiLetter (by obtain rfl := List.mem_singleton.1 hc; rfl)
  | @mark m hm =>
    intro c hc
    obtain rfl := List.mem_singleton.1 hc
    have hb := between_of_mem hm
    exact ⟨hb.ascii, hb.blank fun he => hp (he ▸ rfl)⟩

theorem eq_space_of_isBlank (h : p.Proper) (hc : c ∈ p.text) (hb : isBlank c = true) :
    p = .mark ' ' := by
  by_contra hs
  rw [(isInk_text h hs c hc).2] at hb
  cases hb

theorem text_ne_nil (h : p.Proper) : p.text ≠ [] := by
  have hn : ∀ name ∈ functions.map (·.name) ++ constants.map (·.1) ++ Token.variableNames,
      name.toList ≠ [] := by decide
  cases h with
  | number hw _ =>
    cases hw with
    | intro hne => simp [Piece.text, hne]
  | constant hc =>
    refine hn _ (List.mem_append_left _ (List.mem_append_right _ ?_))
    exact List.mem_map_of_mem hc
  | function hf => exact hn _ (List.mem_append_left _ (List.mem_append_left _ hf))
  | coordinate hv => exact hn _ (List.mem_append_right _ hv)
  | mark hm => exact List.cons_ne_nil _ _

theorem isInk_of_opens (h : p.Proper) (ho : p.Opens) : ∀ c ∈ p.text, IsInk c := by
  apply isInk_text h
  rintro rfl
  simp [Opens] at ho

theorem isInk_of_closes (h : p.Proper) (ho : p.Closes) : ∀ c ∈ p.text, IsInk c := by
  apply isInk_text h
  rintro rfl
  cases ho

theorem tidy_phrase (h : Phrase ps) : Tidy (textOf ps) where
  plain := by
    intro c hc
    obtain ⟨p, hp, hc⟩ := List.mem_flatMap.1 hc
    by_cases hs : p = .mark ' '
    · subst hs
      obtain rfl := List.mem_singleton.1 hc
      decide
    · exact lookup_glyphs (isInk_text (h.proper p hp) hs c hc).1
  space := by
    intro c hc hb
    obtain ⟨p, hp, hc⟩ := List.mem_flatMap.1 hc
    obtain rfl := eq_space_of_isBlank (h.proper p hp) hc hb
    exact List.mem_singleton.1 hc
  single := by
    have hne : [] ∉ ps.map Piece.text := by
      rw [List.mem_map]
      rintro ⟨p, hp, ht⟩
      exact text_ne_nil (h.proper p hp) ht
    rw [textOf, List.flatMap_def, List.isChain_flatten hne, List.isChain_map]
    constructor
    · intro l hl
      obtain ⟨p, hp, rfl⟩ := List.mem_map.1 hl
      by_cases hs : p = .mark ' '
      · subst hs
        exact .singleton ' '
      · refine List.Pairwise.isChain (List.pairwise_of_forall_mem_list fun a ha b _ => ?_)
        rw [(isInk_text (h.proper p hp) hs a ha).2]
        exact fun hb => Bool.false_ne_true hb.1
    · refine h.chain.imp_of_mem_imp fun p q hp hq hm a ha b hb => ?_
      rintro ⟨hba, hbb⟩
      obtain rfl := eq_space_of_isBlank (h.proper p hp) (List.mem_of_mem_getLast? ha) hba
      obtain rfl := eq_space_of_isBlank (h.proper q hq) (List.mem_of_mem_head? hb) hbb
      simp [Meets] at hm
  first := by
    intro c hc
    obtain ⟨p, hp, ho⟩ := h.opens
    obtain ⟨ps', rfl⟩ := List.head?_eq_some_iff.1 hp
    obtain ⟨d, w, hw⟩ := List.exists_cons_of_ne_nil (text_ne_nil (h.proper p List.mem_cons_self))
    rw [textOf, List.flatMap_cons, hw] at hc
    cases hc
    refine (isInk_of_opens (h.proper p List.mem_cons_self) ho _ ?_).2
    rw [hw]
    exact List.mem_cons_self
  last := by
    intro c hc
    obtain ⟨p, hp, hcl⟩ := h.closes
    have hpm := List.mem_of_mem_getLast? hp
    obtain ⟨ps', rfl⟩ := List.getLast?_eq_some_iff.1 hp
    rw [textOf, List.flatMap_append, List.flatMap_singleton,
      List.getLast?_append_of_ne_nil _ (text_ne_nil (h.proper p hpm))] at hc
    exact (isInk_of_closes (h.proper p hpm) hcl _ (List.mem_of_mem_getLast? hc)).2

theorem normalize_phrase (h : Phrase ps) : normalize (textOf ps) = textOf ps :=
  normalize_of_tidy (tidy_phrase h)

end Relief.Expr
