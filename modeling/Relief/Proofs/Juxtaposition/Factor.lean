import Mathlib
import Relief.Proofs.Juxtaposition.Inner
import Relief.Proofs.Shorthand.Word

/-!
Factors of products without a sign, and what the stages of shorthand make of one wherever it stands.
-/
namespace Relief.Juxtaposition

open Relief.Token Relief.Text Relief.Scan Relief.Grammar Relief.Shorthand Relief.Number

variable {limit : Nat} {t : Expr} {u v w n m q before rest : List Char} {ks ks' : List Kind} {c : Char}
  {s : String × String} {d : Decimal} {name : String}

/-! ### Factors -/

/-- What a function is called by: a spelling in letters of either case, or the sign of the root. -/
inductive CalledBy : List Char → String → Prop where
  | spelling {w : List Char} {s : String × String} : IsSpelling w s → CalledBy w s.2
  | root : CalledBy ['√'] "sqrt"

/-- The texts of factors, with their trees. The texts between parentheses and commas are accepted by
themselves, within so many levels. -/
inductive Factor (limit : Nat) : List Char → Expr → Prop where
  | coordinate {name : String} : name ∈ Token.variableNames → Factor limit name.toList (.var name)
  | constant {v : Float} : ("pi", v) ∈ Expr.constants → Factor limit ['π'] (.num v)
  | number {w : List Char} {d : Decimal} : NumberText w d → (∀ c ∈ w, c.toNat < 128) →
    w.head?.any isDigit = true → w.getLast?.any isDigit = true →
    Factor limit w (.num (d.toFloat false))
  | parenthesized {s : String} {t : Expr} : Accepted limit s t →
    Factor limit ('(' :: (s.toList ++ [')'])) t
  | call {w v : List Char} {name : String} {f : Expr.Function} {ts : List Expr} : CalledBy w name →
    Expr.function? name = some f → Arguments limit v ts → f.accepts ts.length = true →
    Factor limit (w ++ '(' :: (v ++ [')'])) (.call name ts)

/-! ### Between factors -/

/-- A factor ends here. -/
def EndsFactor (before : List Char) : Prop :=
  endsInDigit before = true ∨ before.head? = some ')' ∨ endsInVariable before = true

theorem EndsFactor.endsFactor (h : EndsFactor before) : before.head?.any endsFactor = true := by
  cases before with
  | nil => obtain h | h | h := h <;> cases h
  | cons c before =>
    rw [EndsFactor, endsInDigit, endsInVariable, Bool.and_eq_true] at h
    rw [List.head?_cons, Option.any_some, Shorthand.endsFactor]
    obtain h | h | ⟨h, -⟩ := h
    · rw [show isDigit c = true from h]
      rfl
    · rw [Option.some.inj h]
      rfl
    · rw [h, Bool.or_true]

theorem EndsFactor.not_isNameLetter (h : EndsFactor before) :
    before.head?.any isNameLetter = false := by
  have he := h.endsFactor
  cases before with
  | nil => rfl
  | cons c before => exact not_isNameLetter_of_endsFactor he

/-- A text that stands as a factor between others, without glyphs: what each stage makes of it, and how
it is read. A `*` is put before it unless it comes first. -/
structure Stands (u n m q : List Char) (ks : List Kind) : Prop where
  normal : ∀ rest, collapse (u ++ rest) = n ++ collapse rest
  gap : ∀ before rest, EndsFactor before →
    (n.head?.any isDigit = true → before.head? = some ')') → productGap before (n ++ rest) = true
  multiplied : ∀ before rest, before = [] ∨ EndsFactor before →
    insertAt productGap before (n ++ rest) =
      (if productGap before (n ++ rest) then ['*'] else []) ++ m ++
        insertAt productGap (n.reverse ++ before) rest
  ends : ∀ before, before = [] ∨ EndsFactor before → EndsFactor (n.reverse ++ before)
  qualified : qualifyNames m = .ok q
  lexed : Lexes q ks
  ink : n.head?.any (!isBlank ·) = true
  first : q.head?.any (· != '*') = true
  last : q.getLast?.any (· != '*') = true

theorem insertAt_cons_append (h : insertAt productGap (c :: before) (n ++ rest) =
    m ++ insertAt productGap (n.reverse ++ c :: before) rest) :
    insertAt productGap before (c :: n ++ rest) =
      (if productGap before (c :: n ++ rest) then ['*'] else []) ++ c :: m ++
        insertAt productGap ((c :: n).reverse ++ before) rest := by
  rw [List.cons_append, insertAt, h, List.reverse_cons, List.append_assoc n.reverse]
  split <;> simp

/-! ### Gaps -/

theorem gap_of_paren (h : before.head? = some ')')
    (hc : (c == '(' || isDigit c || isAsciiLetter c) = true) :
    productGap before (c :: rest) = true :=
  productGap_of_rule (show parenThenFactor ∈ gapRules by simp [gapRules])
    (by rw [parenThenFactor, h]; exact hc)

theorem gap_of_digit (h : endsInDigit before = true) (hc : isAsciiLetter c = true)
    (hs : startsExponent (c :: rest) = false) : productGap before (c :: rest) = true :=
  productGap_of_rule (show digitThenLetter ∈ gapRules by simp [gapRules])
    (by rw [digitThenLetter, h, hs]; exact hc)

theorem gap_open (h : EndsFactor before) : productGap before ('(' :: rest) = true := by
  obtain h | h | h := h
  · exact productGap_of_rule (show digitThenParen ∈ gapRules by simp [gapRules])
      (by rw [digitThenParen, h]; rfl)
  · exact gap_of_paren h rfl
  · exact productGap_of_rule (show variableThenParen ∈ gapRules by simp [gapRules])
      (by rw [variableThenParen, h]; rfl)

theorem isAsciiLetter_of_isVariable (h : isVariable c = true) : isAsciiLetter c = true := by
  simp only [isVariable, Bool.or_eq_true, beq_iff_eq] at h
  obtain rfl | rfl := h <;> rfl

theorem gap_coordinate (h : EndsFactor before) (hc : isVariable c = true) :
    productGap before (c :: rest) = true := by
  have hl := isAsciiLetter_of_isVariable hc
  obtain h | h | h := h
  · have hm : (c == 'e' || c == 'E') = false := by
      simp only [isVariable, Bool.or_eq_true, beq_iff_eq] at hc
      obtain rfl | rfl := hc <;> decide
    refine gap_of_digit h hl ?_
    cases rest with
    | nil => rfl
    | cons d rest => rw [startsExponent, hm, Bool.false_and]
  · exact gap_of_paren h (by rw [hl, Bool.or_true])
  · have hb : before.head?.any isVariable = true := by
      cases before with
      | nil => cases h
      | cons b before =>
        rw [endsInVariable, Bool.and_eq_true] at h
        exact h.1
    exact productGap_of_rule (show variableThenVariable ∈ gapRules by simp [gapRules])
      (by rw [variableThenVariable, hb]; exact hc)

theorem endsName_paren (rest : List Char) : endsName ('(' :: rest) = true := by
  rw [endsName_cons]
  decide

/-- A spelling of a function is no exponent: its second letter is neither a digit nor a sign. -/
theorem IsSpelling.startsExponent (h : IsSpelling w s) :
    startsExponent (w ++ '(' :: rest) = false := by
  have hd : ∀ d, isAsciiLetter d = true ∨ d = '(' → (d == '+' || d == '-' || isDigit d) = false := by
    rintro d (hd | rfl)
    · have hn := not_isDigit_of_isAsciiLetter hd
      simp only [hn, Bool.or_false, Bool.or_eq_false_iff, beq_eq_false_iff_ne]
      constructor <;> rintro rfl <;> cases hd
    · decide
  obtain ⟨c, w, rfl⟩ := List.exists_cons_of_ne_nil h.ne_nil
  cases w with
  | nil => rw [List.singleton_append, Shorthand.startsExponent, hd _ (.inr rfl), Bool.and_false]
  | cons d w =>
    have hl := h.letters d (List.mem_cons_of_mem c List.mem_cons_self)
    rw [List.cons_append, List.cons_append, Shorthand.startsExponent, hd d (.inl hl), Bool.and_false]

theorem IsSpelling.startsCall (h : IsSpelling w s) : startsCall (w ++ '(' :: rest) = true := by
  have hn := List.all_eq_true.1 (spellings_letters s h.known)
  rw [startsCall_eq, List.any_eq_true]
  refine ⟨s, h.known, ?_⟩
  rw [callsAfter, afterName?_append hn (endsName_paren rest), h.afterName?]
  rfl

theorem gap_spelling (h : EndsFactor before) (hw : IsSpelling w s) :
    productGap before (w ++ '(' :: rest) = true := by
  have hs := @IsSpelling.startsExponent w rest s hw
  have hcall := @IsSpelling.startsCall w rest s hw
  obtain ⟨c, w, rfl⟩ := List.exists_cons_of_ne_nil hw.ne_nil
  have hl := hw.letters c List.mem_cons_self
  obtain h | h | h := h
  · exact gap_of_digit h hl hs
  · exact gap_of_paren h (by rw [hl, Bool.or_true])
  · exact productGap_of_rule (show variableThenCall ∈ gapRules by simp [gapRules])
      (by rw [variableThenCall, h]; exact hcall)

/-! ### Each kind of factor -/

theorem bne_star_of_inWord (h : inWord c = true) : (c != '*') = true := by
  rw [bne_iff_ne]
  rintro rfl
  cases h

theorem stands_coordinate (hn : name ∈ Token.variableNames) :
    Stands name.toList name.toList name.toList name.toList [.var name] := by
  obtain ⟨c, hc, hv, ho, hq⟩ : ∃ c, name.toList = [c] ∧ isVariable c = true ∧
      ofName (String.ofList [c]) = .token (.var name) ∧ qualifyNames [c] = .ok [c] := by
    simp only [Token.variableNames, List.mem_cons, List.not_mem_nil, or_false] at hn
    obtain rfl | rfl := hn
    · exact ⟨'x', rfl, rfl, rfl, rfl⟩
    · exact ⟨'y', rfl, rfl, rfl, rfl⟩
  have hl := isAsciiLetter_of_isVariable hv
  have hname : NameText [c] :=
    Expr.nameText_of_letters (List.cons_ne_nil _ _) (List.forall_mem_singleton.2 hl)
  have hword := hname.inWord c List.mem_cons_self
  have hb := not_isBlank_of_inWord hword
  rw [hc]
  exact
    { normal := collapse_of_ink (List.forall_mem_singleton.2 hb)
      gap := fun before rest h _ => gap_coordinate h hv
      multiplied := fun before rest _ => @insertAt_cons_append [] [] before rest c rfl
      ends := fun before h => by
        have hbefore : before.head?.any isNameLetter = false := by
          obtain rfl | h := h
          · rfl
          · exact h.not_isNameLetter
        refine .inr (.inr ?_)
        rw [List.reverse_singleton, List.singleton_append, endsInVariable, hv, hbefore]
        rfl
      qualified := hq
      lexed := .single (ho ▸ .name hname)
      ink := by simp [hb]
      first := bne_star_of_inWord hword
      last := bne_star_of_inWord hword }

theorem stands_number (h : NumberText w d) (ha : ∀ c ∈ w, c.toNat < 128)
    (hf : w.head?.any isDigit = true) (hl : w.getLast?.any isDigit = true) :
    Stands w w w w [.number (d.toFloat false)] := by
  have hink : ∀ c ∈ w, isBlank c = false := fun c hc => not_isBlank_of_inWord (h.inWord c hc)
  obtain ⟨b, hb, hbd⟩ := (Option.any_eq_true _ _).1 hl
  obtain ⟨c, w, rfl⟩ : ∃ c v, w = c :: v := by
    cases w with
    | nil => cases hf
    | cons c w => exact ⟨c, w, rfl⟩
  have hc : isDigit c = true := hf
  exact
    { normal := collapse_of_ink hink
      gap := fun before rest _ hp => gap_of_paren (hp hf) (by rw [hc, Bool.or_true, Bool.true_or])
      multiplied := fun before rest _ =>
        insertAt_cons_append (insertAt_of_still (still_number h))
      ends := fun before _ => by
        refine .inl ?_
        rw [endsInDigit, List.head?_append, List.head?_reverse, hb]
        exact hbd
      qualified := qualifyNames_number h ha hf
      lexed := .single (.number h)
      ink := by simp [hink c List.mem_cons_self]
      first := bne_star_of_inWord (inWord_of_isDigit hc)
      last := by
        rw [hb]
        exact bne_star_of_inWord (inWord_of_isDigit hbd) }

/-- What may stand before a parenthesis that opens: nothing, or what a function is called by. -/
structure Opens (w q : List Char) (ks : List Kind) : Prop where
  ink : ∀ c ∈ w, isBlank c = false
  gap : ∀ before rest, EndsFactor before → productGap before (w ++ '(' :: rest) = true
  still : ∀ before rest c v, w ++ ['('] = c :: v → Still (c :: before) v rest
  qualified : qualifyNames w = .ok q
  lexed : Lexes q ks
  digit : w.head?.any isDigit = false
  first : ∀ c ∈ q.head?, c ≠ '*'

theorem opens_nil : Opens [] [] [] where
  ink _ hc := absurd hc List.not_mem_nil
  gap _ _ h := gap_open h
  still before rest c v he := by
    obtain ⟨rfl, rfl⟩ := List.cons.inj he
    exact .nil
  qualified := rfl
  lexed := .nil
  digit := rfl
  first _ hc := by cases hc

theorem opens_spelling (h : IsSpelling w s) : Opens w (qualified s.2) [.func s.2] where
  ink c hc := Expr.not_isBlank_of_isAsciiLetter (h.letters c hc)
  gap before rest hb := gap_spelling hb h
  still before rest c v he := by
    obtain ⟨d, w, rfl⟩ := List.exists_cons_of_ne_nil h.ne_nil
    obtain ⟨rfl, rfl⟩ := List.cons.inj he
    exact h.still
  qualified := h.qualifyNames
  lexed := by
    refine .single ?_
    have hs : ∀ s ∈ spellings, s.2 ∈ Expr.functions.map (·.name) ∧ s.2.toList ≠ [] := by decide
    obtain ⟨hf, hn⟩ := hs s h.known
    have hl := List.all_eq_true.1 (spellings_named s h.known)
    have hq := Spells.qualified (Expr.nameText_of_letters hn hl)
    rw [String.ofList_toList, Expr.ofQualified_function hf] at hq
    rwa [qualified, String.toList_append]
  digit := by
    obtain ⟨c, w, rfl⟩ := List.exists_cons_of_ne_nil h.ne_nil
    exact not_isDigit_of_isAsciiLetter (h.letters c List.mem_cons_self)
  first := by
    rw [qualified, String.toList_append]
    rintro c ⟨⟩
    decide

theorem getLast?_brackets (w u : List Char) : (w ++ '(' :: (u ++ [')'])).getLast? = some ')' := by
  rw [← List.cons_append, ← List.append_assoc, List.getLast?_concat]

/-- Between the parentheses, products are put in as if the text stood alone. -/
theorem Opens.insertAt (h : Opens w q ks) (before rest : List Char) :
    insertAt productGap before (w ++ '(' :: (u ++ [')']) ++ rest) =
      (if productGap before (w ++ '(' :: (u ++ [')']) ++ rest) then ['*'] else []) ++
        (w ++ '(' :: (insertProducts u ++ [')'])) ++
          insertAt productGap ((w ++ '(' :: (u ++ [')'])).reverse ++ before) rest := by
  obtain ⟨c, v, he⟩ := List.exists_cons_of_ne_nil
    (List.append_ne_nil_of_right_ne_nil w (List.cons_ne_nil '(' []))
  have hw : ∀ x, w ++ '(' :: x = c :: (v ++ x) := fun x => by
    rw [← List.cons_append, ← he, List.append_assoc, List.singleton_append]
  have hrev : v.reverse ++ c :: before = '(' :: (w.reverse ++ before) := by
    have := congrArg (·.reverse ++ before) he
    simpa using this.symm
  have hbetween := @insertAt_between ('(' :: (w.reverse ++ before)) u rest ')'
    (.inr (.inr rfl)) (IsOpen.sameEnd (.inr (.inr rfl)) _)
  rw [hw, hw]
  apply insertAt_cons_append
  simp only [List.append_assoc, List.reverse_append, List.reverse_singleton, List.cons_append,
    List.nil_append]
  rw [insertAt_of_still (h.still before _ c v he), hrev, hbetween]

theorem stands_brackets {w' : List Char} (h : Opens w w' ks) (hu : ReadsInside u q ks') :
    Stands (w ++ '(' :: (u ++ [')'])) (w ++ '(' :: (collapse u ++ [')']))
      (w ++ '(' :: (insertProducts (collapse u) ++ [')'])) (w' ++ '(' :: (q ++ [')']))
      (ks ++ .openParen :: (ks' ++ [.closeParen])) := by
  have hopen : isBlank '(' = false := by decide
  have hclose : isBlank ')' = false := by decide
  exact
    { normal := fun rest => by
        simp only [List.append_assoc, List.cons_append, List.nil_append]
        rw [collapse_of_ink h.ink, collapse_cons_of_not_blank hopen,
          collapse_append (fun c hc => by cases hc; exact hclose), collapse_cons_of_not_blank hclose]
      gap := fun before rest hb _ => by
        rw [List.append_assoc]
        exact h.gap before _ hb
      multiplied := fun before rest _ => h.insertAt before rest
      ends := fun before _ => by
        refine .inr (.inl ?_)
        rw [List.head?_append, List.head?_reverse, getLast?_brackets]
        rfl
      qualified := qualifyNames_wall (by decide) h.qualified (qualifyNames_wall (by decide) hu.1 rfl)
      lexed := h.lexed.append_mark (by simp [symbols]) (by decide) (fun _ _ => .inr (by decide))
        (fun _ _ => .inr (by decide)) (hu.2.append_mark (by simp [symbols]) (by decide)
          (fun _ _ => .inr (by decide)) (fun _ _ => .inr (by decide)) .nil)
      ink := by
        cases w with
        | nil => simp [hopen]
        | cons c w => simp [h.ink c List.mem_cons_self]
      first := by
        cases w' with
        | nil => rfl
        | cons c w' => simpa using h.first c rfl
      last := by
        rw [getLast?_brackets]
        rfl }

/-! ### Every factor -/

theorem CalledBy.spelled (h : CalledBy w name) :
    ∃ w' s, w.flatMap spellOut = w' ∧ IsSpelling w' s ∧ s.2 = name := by
  cases h with
  | spelling h =>
    refine ⟨w, _, flatMap_spellOut fun c hc => ?_, h, rfl⟩
    have := isAsciiLetter_iff.1 (h.letters c hc)
    exact lookup_glyphs (by omega)
  | root => exact ⟨_, ("sqrt", "sqrt"), rfl, ⟨by decide, by decide⟩, rfl⟩

/-- The derivation of a product that begins with an atom. -/
def product (a : Derivation .atom) (fs : Derivation .factors) : Derivation .additive :=
  .additive (.multiplicative (.unsigned (.plain a)) fs) .endTerms

@[simp] theorem yield_product (a : Derivation .atom) (fs : Derivation .factors) :
    (product a fs).yield = a.yield ++ fs.yield := by
  simp [product, Derivation.yield]

/-- How a factor of a text stands in it, with the derivation of its tree. -/
structure Written (limit : Nat) (w : List Char) (t : Expr) (n m q : List Char)
    (d : Derivation .atom) : Prop where
  stands : Stands (w.flatMap spellOut) n m q d.yield
  allowed : d.Allowed
  tree : d.tree = t
  levels : d.levels ≤ max limit 5 + 2
  digit : n.head?.any isDigit = true → w.head?.any isDigit = true
  paren : w.getLast? = some ')' → n.getLast? = some ')'

theorem written_brackets {w' q' : List Char} {d : Derivation .atom}
    (hw : w.flatMap spellOut = w' ++ '(' :: (u ++ [')'])) (ho : Opens w' q' ks)
    (hu : ReadsInside u q ks') (hd : d.yield = ks ++ .openParen :: (ks' ++ [.closeParen]))
    (ha : d.Allowed) (ht : d.tree = t) (hl : d.levels ≤ max limit 5 + 2) :
    Written limit w t (w' ++ '(' :: (collapse u ++ [')']))
      (w' ++ '(' :: (insertProducts (collapse u) ++ [')'])) (q' ++ '(' :: (q ++ [')'])) d where
  stands := by
    rw [hw, hd]
    exact stands_brackets ho hu
  allowed := ha
  tree := ht
  levels := hl
  digit h := by
    cases w' with
    | nil => cases h
    | cons c w' =>
      have hc := ho.digit
      rw [List.head?_cons] at hc
      rw [List.cons_append, List.head?_cons, hc] at h
      cases h
  paren _ := getLast?_brackets w' _

theorem Factor.written (h : Factor limit w t) : ∃ n m q d, Written limit w t n m q d := by
  cases h with
  | @coordinate name hn =>
    have hs := stands_coordinate hn
    have hv : ∀ name ∈ Token.variableNames, name.toList.all (·.toNat < 128) = true := by decide
    have hp : ∀ c ∈ name.toList, glyphs.lookup c = none := fun c hc =>
      lookup_glyphs (of_decide_eq_true (List.all_eq_true.1 (hv name hn) c hc))
    refine ⟨name.toList, name.toList, name.toList, .var name, ⟨?_, trivial, rfl, ?_, id, id⟩⟩
    · rwa [flatMap_spellOut hp]
    · simp only [Derivation.levels]
      omega
  | @number w d h ha hf hl =>
    have hs := stands_number h ha hf hl
    refine ⟨w, w, w, .number (d.toFloat false), ⟨?_, trivial, rfl, ?_, id, id⟩⟩
    · rwa [flatMap_spellOut fun c hc => lookup_glyphs (ha c hc)]
    · simp only [Derivation.levels]
      omega
  | @constant v hv =>
    have hr : ReadsInside "pi".toList (qualified "pi") (product (.number v) .endFactors).yield := by
      have hp : ∀ c ∈ "pi".toList, isAsciiLetter c = true := List.all_eq_true.1 (by decide)
      have hn : NameText "pi".toList := Expr.nameText_of_letters (by decide) hp
      have hs := Spells.qualified hn
      rw [String.ofList_toList, Expr.ofQualified_constant hv] at hs
      refine ⟨rfl, ?_⟩
      rw [qualified, String.toList_append]
      exact .single hs
    refine ⟨_, _, _, .parenthesized (product (.number v) .endFactors),
      written_brackets rfl opens_nil hr rfl ⟨⟨trivial, trivial⟩, trivial⟩ rfl ?_⟩
    simp [product, Derivation.levels]
  | @parenthesized s t h =>
    obtain ⟨q, a, hr, ha, ht, hlevels⟩ := h.readsInside
    refine ⟨_, _, _, .parenthesized a, written_brackets ?_ opens_nil hr rfl ha ht ?_⟩
    · rw [List.flatMap_cons, List.flatMap_append]
      rfl
    · simp only [Derivation.levels]
      omega
  | @call w v name f ts hw hf hv hacc =>
    obtain ⟨w', s, hw', hs, rfl⟩ := hw.spelled
    obtain ⟨q, as, hr, ha, rfl, hlevels⟩ := hv.readsInside
    refine ⟨_, _, _, .call s.2 as,
      written_brackets ?_ (opens_spelling hs) hr rfl ⟨ha, f, hf, hacc⟩ rfl ?_⟩
    · rw [List.flatMap_append, List.flatMap_cons, List.flatMap_append, hw']
      rfl
    · simp only [Derivation.levels]
      omega

end Relief.Juxtaposition
