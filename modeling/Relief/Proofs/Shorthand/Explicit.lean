import Mathlib
import Relief.Proofs.Grammar.Adjacency
import Relief.Proofs.Juxtaposition.Product
import Relief.Proofs.Shorthand.Idempotence
import Relief.Proofs.Shorthand.Pieces

/-!
A text that is an expression as it stands has no gap for a sign. Where a rule matches, an atom would end
and another begin, and no row of tokens with two atoms side by side is derived.
-/
namespace Relief.Shorthand

open Relief.Token Relief.Text Relief.Scan Relief.Grammar

variable {before before' w w' rest rest' cs cs' : List Char} {c : Char} {k k' : Kind} {ks : List Kind}

/-! ### What is known where a token begins or ends -/

/-- Where an atom begins no factor ends, unless a function is called here. -/
def Begins (before : List Char) (k : Kind) : Prop :=
  beginsAtom k = true → before.head?.any endsFactor = false ∨
    (k = .openParen ∧ Loose before ∧ endsInDigit before = false)

/-- No factor ends with a token that ends no atom, and none with the name of a function. -/
structure Ends (k : Kind) (before : List Char) : Prop where
  join : endsAtom k = false → isFunction k = false → before.head?.any endsFactor = false
  function : isFunction k = true → Loose before ∧ endsInDigit before = false

theorem Ends.begins (h : Ends k before) (ha : Adjacent k k') : Begins before k' := by
  intro hk
  have he : endsAtom k = false := by
    rw [← Bool.not_eq_true]
    intro ht
    rw [ha.atom ht] at hk
    cases hk
  cases hf : isFunction k with
  | true => exact .inr ⟨ha.function hf, h.function hf⟩
  | false => exact .inl (h.join he hf)

theorem isFunction_of_endsAtom (h : endsAtom k = true) : isFunction k = false := by
  cases k <;> first | rfl | cases h

theorem ends_atom (h : endsAtom k = true) (before : List Char) : Ends k before where
  join hf := by
    rw [h] at hf
    cases hf
  function hf := by
    rw [isFunction_of_endsAtom h] at hf
    cases hf

theorem ends_join (hf : isFunction k = false) (h : before.head?.any endsFactor = false) :
    Ends k before where
  join _ _ := h
  function ht := by
    rw [hf] at ht
    cases ht

theorem endsAtom_or_isFunction (hk : beginsAtom k = true) (hp : k ≠ .openParen) :
    endsAtom k = true ∨ isFunction k = true := by
  cases k <;> first | exact .inl rfl | exact .inr rfl | exact absurd rfl hp | cases hk

/-! ### Within and around a token -/

theorem Begins.not_endsFactor (h : Begins before k) (hk : beginsAtom k = true) (hp : k ≠ .openParen) :
    before.head?.any endsFactor = false :=
  (h hk).resolve_right fun hr => hp hr.1

theorem still_symbol (h : (w, k) ∈ symbols) (hb : Begins before k) :
    Still before w rest ∧ Ends k (w.reverse ++ before) := by
  have hmark : ∀ {c : Char} {k}, isAsciiLetter c = false → c.toNat < 128 → isDigit c = false →
      c ≠ '(' → endsFactor c = false → isFunction k = false →
        Still before [c] rest ∧ Ends k ([c].reverse ++ before) :=
    fun hl ha hd hp he hf => ⟨.cons (quiet_mark hl ha hd hp _ _) .nil, ends_join hf he⟩
  simp only [symbols, List.mem_cons, Prod.mk.injEq, List.not_mem_nil, or_false] at h
  obtain ⟨rfl, rfl⟩ | ⟨rfl, rfl⟩ | ⟨rfl, rfl⟩ | ⟨rfl, rfl⟩ | ⟨rfl, rfl⟩ | ⟨rfl, rfl⟩ | ⟨rfl, rfl⟩ |
    ⟨rfl, rfl⟩ | ⟨rfl, rfl⟩ := h
  case inl =>
    exact ⟨.cons (quiet_mark rfl (by decide) (by decide) (by decide) _ _)
      (.cons (quiet_star _ _) .nil), ends_join rfl (show endsFactor '*' = false by decide)⟩
  case inr.inr.inr.inr.inr.inr.inl =>
    refine ⟨.cons ?_ .nil, ends_join rfl (show endsFactor '(' = false by decide)⟩
    obtain hf | ⟨-, hl, hd⟩ := hb rfl
    · exact quiet_of_not_endsFactor hf _
    · exact quiet_start hl hd (fun hv => absurd hv (by decide)) _
  case inr.inr.inr.inr.inr.inr.inr.inl =>
    exact ⟨.cons (quiet_mark rfl (by decide) (by decide) (by decide) _ _) .nil, ends_atom rfl _⟩
  all_goals exact hmark rfl (by decide) (by decide) (by decide) (by decide) rfl

/-- A qualified name that is read is that of a function or a constant. -/
theorem mem_qualifiedNames_of_ofQualified {name : String} (h : ofQualified name = .token k) :
    name ∈ qualifiedNames ∧ beginsAtom k = true ∧ k ≠ .openParen := by
  have hc : ∀ c ∈ Expr.constants.map (·.1), c ∈ qualifiedNames := by decide
  have hf : ∀ f ∈ Expr.functions.map (·.name), f ∈ qualifiedNames := by decide
  obtain ⟨v, hv, rfl⟩ | ⟨hs, rfl⟩ := ofQualified_eq_token h
  · exact ⟨hc _ (List.mem_map_of_mem hv), rfl, Kind.noConfusion⟩
  · obtain ⟨f, hfound⟩ := Option.isSome_iff_exists.1 hs
    have hname : f.name = name := by simpa using List.find?_some hfound
    have hm := List.mem_map_of_mem (f := (·.name)) (List.mem_of_find?_eq_some hfound)
    exact ⟨hf _ (hname ▸ hm), rfl, Kind.noConfusion⟩

/-- No rule matches within a token, and none before it unless an atom stands there. -/
theorem still_token (h : Spells w (.token k)) (hb : Begins before k) :
    Still before w rest ∧ Ends k (w.reverse ++ before) := by
  generalize hl : Lexeme.token k = l at h
  cases h with
  | @number w d h =>
    cases hl
    have hf := hb.not_endsFactor rfl Kind.noConfusion
    obtain ⟨c, w, rfl⟩ := List.exists_cons_of_ne_nil (Spells.number h).ne_nil
    exact ⟨.cons (quiet_of_not_endsFactor hf _) (still_number h), ends_atom rfl _⟩
  | @qualified w h =>
    obtain ⟨hn, hk, hp⟩ := mem_qualifiedNames_of_ofQualified hl.symm
    obtain ⟨hs, hloose⟩ := still_qualified hn (hb.not_endsFactor hk hp) rest
    rw [qualified, String.toList_append, String.toList_ofList] at hs hloose
    refine ⟨hs, fun ha hf => ?_, fun _ => hloose⟩
    obtain ht | ht := endsAtom_or_isFunction hk hp
    · rw [ha] at ht
      cases ht
    · rw [hf] at ht
      cases ht
  | @name w h =>
    obtain ⟨hn, rfl⟩ := ofName_eq_token hl.symm
    have hf := hb.not_endsFactor rfl Kind.noConfusion
    have hv : ∀ name ∈ Token.variableNames, name.toList.length = 1 := by decide
    obtain ⟨c, hc⟩ := List.length_eq_one_iff.1 (hv _ hn)
    rw [String.toList_ofList] at hc
    subst hc
    exact ⟨.cons (quiet_of_not_endsFactor hf _) .nil, ends_atom rfl _⟩
  | symbol h =>
    cases hl
    exact still_symbol h hb
  | blank => cases hl

/-! ### The whole text -/

theorem quiet_blank (h : isBlank c = true) (before cs : List Char) : Quiet before (c :: cs) := by
  have hl : isAsciiLetter c = false := by
    have hn := not_isNameStart_of_isBlank h
    rw [isNameStart, Bool.or_eq_false_iff] at hn
    exact hn.1
  have hp : c ≠ '(' := by
    rintro rfl
    cases h
  have hs : startsCall (c :: cs) = false := by
    rw [startsCall_eq, List.any_eq_false]
    intro s hs
    rw [callsAfter, afterName?_spelling hs, Option.any_none]
    · exact Bool.false_ne_true
    · rintro d ⟨⟩ letter hletter
      rw [← Bool.not_eq_true]
      intro hf
      rw [not_isBlank_of_continuesName (continuesName_of_isFormOf hletter hf)] at h
      cases h
  rw [quiet_iff]
  simp [digitThenLetter, digitThenParen, parenThenFactor, variableThenParen, variableThenCall,
    variableThenVariable, hl, not_isDigit_of_isBlank h, hp, hs, isVariable_eq_false hl]

theorem begins_of_isBlank (h : isBlank c = true) (before : List Char) (k : Kind) :
    Begins (c :: before) k := by
  refine fun _ => .inl ?_
  rw [List.head?_cons, Option.any_some, ← Bool.not_eq_true]
  intro he
  rw [Juxtaposition.not_isBlank_of_endsFactor he] at h
  cases h

theorem silent_of_lexes (h : Lexes cs ks) (hc : ks.IsChain Adjacent)
    (hb : ∀ k ∈ ks.head?, Begins before k) : Silent before cs := by
  induction h generalizing before with
  | nil => exact .nil
  | blank hblank _ ih =>
    exact .cons (quiet_blank hblank _ _) (ih hc fun k _ => begins_of_isBlank hblank _ k)
  | @token w rest k ks hl _ ih =>
    obtain ⟨hn, hc⟩ := List.isChain_cons.1 hc
    obtain ⟨hs, he⟩ := @still_token _ w rest _ hl.spells (hb k rfl)
    exact hs.silent (ih hc fun k' hk' => he.begins (hn k' hk'))

/-- A text that is derived has no gap for a sign. -/
theorem silent_of_derives {text : String} {d : Derivation .additive} (h : Derives text d) :
    Silent [] text.toList :=
  silent_of_lexes (derives_iff.1 h).1 d.isChain_yield fun _ _ _ => .inl rfl

/-! ### Before names are qualified -/

/-- What becomes of a run: nothing, or a name is qualified. -/
theorem Renamed.eq_or_isName (h : Renamed w w') (hw : IsRun w) :
    w' = w ∨ IsName w ∧ ∃ name ∈ qualifiedNames, w' = qualified name := by
  have hq := qualifyNames_of_not_isForeign hw (h.not_isForeign hw)
  obtain rfl : w' = renamed w := Except.ok.inj (h.qualifyNames_eq.symm.trans hq)
  by_cases hs : ∃ s, IsSpelling w s
  · obtain ⟨s, hs⟩ := hs
    exact .inr ⟨hs.isName, s.2, List.mem_append_left _ (List.mem_map_of_mem hs.known), hs.renamed⟩
  · simp only [not_exists] at hs
    rw [renamed_of_no_spelling hs]
    split
    · next hc =>
      have hn := List.mem_append_right (spellings.map (·.2)) hc
      have hname := isName_qualifiedNames hn
      rw [String.toList_ofList] at hname
      exact .inr ⟨hname, _, hn, rfl⟩
    · exact .inl rfl

theorem Renamed.quiet_before (h : Renamed w w') (hw : IsRun w)
    (hb : before.head?.any continuesName = false) (he : SameEnd before before')
    (hs : Silent before' (w' ++ rest')) (hh : rest'.head? = rest.head?) (hr : endsName rest' = true) :
    Still before w rest ∧ Quiet (w.reverse ++ before) rest := by
  obtain rfl | ⟨hname, name, -, rfl⟩ := h.eq_or_isName hw
  · obtain ⟨hstill, hrest⟩ := hs.split
    exact ⟨hstill.sameRest hh hr he.symm,
      @Quiet.sameRest _ _ [] _ _ hh hr hrest.quiet (he.symm.append _)⟩
  · have hq : Quiet before (qualified name ++ rest') := fun rule hm => by
      rw [he.rule_eq hm]
      exact hs.quiet rule hm
    rw [qualified, String.toList_append] at hq
    obtain ⟨hl, hd⟩ := loose_of_not_endsFactor
      (@not_endsFactor_of_quiet _ ("ath.".toList ++ name.toList ++ rest') 'm' hb rfl hq)
    obtain ⟨hl', hd'⟩ := hname.loose hl hd
    rw [endsName, hh] at hr
    exact ⟨hname.still hl hd, quiet_of_endsName hl' hd' hr⟩

/-- Where no sign is missing after names have been qualified, none was missing before. -/
theorem Qualified.silent_before (h : Qualified cs cs') (hb : before.head?.any continuesName = false)
    (he : SameEnd before before') (hs : Silent before' cs') : Silent before cs := by
  induction h generalizing before before' with
  | @run w w' hw hr =>
    rw [← List.append_nil w'] at hs
    rw [← List.append_nil w]
    exact (hr.quiet_before hw hb he hs rfl rfl).1.silent .nil
  | @mark w w' v v' c hw hr hc _ ih =>
    have hend : endsName (c :: v') = true := by
      rw [endsName_cons, hc]
      rfl
    obtain ⟨hstill, hquiet⟩ :=
      hr.quiet_before hw hb he hs (show (c :: v').head? = (c :: v).head? from rfl) hend
    obtain ⟨-, hrest⟩ := hs.split
    cases hrest with
    | cons _ hrest =>
      exact hstill.silent (.cons hquiet (@ih (c :: _) _ hc (sameEnd_mark hc _ _) hrest))

/-- A text that is an expression once its names are qualified is left alone by the stage that makes
products explicit, and so it has the same tree with that stage as without. -/
theorem multiplyText_expression {text resolved : String} {t : Expr}
    (hr : resolveText text = .ok resolved) (ht : Parser.parse resolved = .ok t) :
    multiplyText text = text ∧
      ∃ r, resolveText (multiplyText text) = .ok r ∧ Parser.parse r = .ok t := by
  have hp : Parser.parseWithin Parser.maxLevels resolved = .ok t := by
    rw [parseWithin_maxLevels, ht]
    rfl
  obtain ⟨d, hd, -, -⟩ := derives_of_parseWithin hp
  obtain ⟨cs, hq, rfl⟩ := map_eq_ok_iff.1 hr
  have hs := silent_of_derives hd
  rw [String.toList_ofList] at hs
  have hsilent := (qualified_iff.2 hq).silent_before rfl (.refl []) hs
  have he : multiplyText text = text := by
    rw [multiplyText, insertProducts_of_silent hsilent, String.ofList_toList]
  exact ⟨he, _, he.symm ▸ hr, ht⟩

theorem multiplyText_expression_call :
    ∃ t, Parser.parse "math.max(1e5*x, math.exp(-y))" = .ok t ∧
      multiplyText "MAX(1e5*x, exp(-y))" = "MAX(1e5*x, exp(-y))" := by
  have hr : resolveText "MAX(1e5*x, exp(-y))" = .ok "math.max(1e5*x, math.exp(-y))" := by decide
  have hp : (Parser.parse "math.max(1e5*x, math.exp(-y))").toOption.isSome = true := by
    decide +kernel
  cases h : Parser.parse "math.max(1e5*x, math.exp(-y))" with
  | ok t => exact ⟨t, rfl, (multiplyText_expression hr h).1⟩
  | error e =>
    rw [h] at hp
    cases hp

end Relief.Shorthand
