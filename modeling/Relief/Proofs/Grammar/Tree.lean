import Mathlib
import Relief.Proofs.Expr.WellFormed
import Relief.Proofs.Grammar.Recognition
import Relief.Proofs.Number.Sign

/-!
The trees that the parser finds are well-formed, and their numbers are such as decimals and named numbers
are. No number in them has a sign.
-/
namespace Relief.Grammar

open Relief.Token Relief.Parser Relief.Scan Relief.Number Relief.Expr

variable {s : Symbol} {w cs : List Char} {p levels : Nat} {k : Kind} {op name text : String}
  {t : Expr} {number : Float → Prop}

/-- No sign, not even that of a negative zero. -/
def IsUnsigned (v : Float) : Prop := Unsigned (fields v)

/-- What holds of every number that can be written. -/
structure Admits (number : Float → Prop) : Prop where
  decimal : ∀ d : Decimal, number (d.toFloat false)
  constant : ∀ {name v}, (name, v) ∈ constants → number v

/-- Tokens that the scanner reads. -/
def IsRead (number : Float → Prop) : Kind → Prop
  | .number value => number value
  | .var name => name ∈ Token.variableNames
  | _ => True

theorem isUnsigned_constant {v : Float} (h : (name, v) ∈ constants) : IsUnsigned v := by
  simp only [constants, List.mem_cons, Prod.mk.injEq, List.not_mem_nil, or_false] at h
  obtain ⟨-, rfl⟩ | ⟨-, rfl⟩ := h
  · exact Unsigned.finite
  · exact Unsigned.finite

theorem admits_isUnsigned : Admits IsUnsigned where
  decimal := Decimal.unsigned_toFloat
  constant := isUnsigned_constant

theorem isRead_ofQualified (hn : Admits number) (h : ofQualified name = .token k) :
    IsRead number k := by
  obtain ⟨v, hv, rfl⟩ | ⟨-, rfl⟩ := ofQualified_eq_token h
  · exact hn.constant hv
  · trivial

theorem isRead_ofName (h : ofName name = .token k) : IsRead number k := by
  obtain ⟨hn, rfl⟩ := ofName_eq_token h
  exact hn

theorem isRead_of_spells (hn : Admits number) (h : Spells w (.token k)) : IsRead number k := by
  generalize hl : Lexeme.token k = l at h
  cases h with
  | @number _ d _ =>
    cases hl
    exact hn.decimal d
  | qualified => exact isRead_ofQualified hn hl.symm
  | name => exact isRead_ofName hl.symm
  | symbol h =>
    cases hl
    simp only [symbols, List.mem_cons, Prod.mk.injEq, List.not_mem_nil, or_false] at h
    rcases h with ⟨-, rfl⟩ | ⟨-, rfl⟩ | ⟨-, rfl⟩ | ⟨-, rfl⟩ | ⟨-, rfl⟩ | ⟨-, rfl⟩ | ⟨-, rfl⟩ |
      ⟨-, rfl⟩ | ⟨-, rfl⟩ <;> trivial
  | blank => cases hl

theorem isRead_of_munches (hn : Admits number) {ts : List Token} (h : Munches p cs ts) :
    ∀ t ∈ ts, IsRead number t.kind := by
  induction h with
  | finish => simp [IsRead]
  | blank _ _ ih => exact ih
  | token hl _ ih => exact List.forall_mem_cons.2 ⟨isRead_of_spells hn hl.spells, ih⟩

/-- What a derivation means is well-formed. A repeated part keeps an expression well-formed. -/
def MeansWell (number : Float → Prop) : (s : Symbol) → Meaning s → Prop
  | .terms, f | .factors, f => ∀ left, WellFormed number left → WellFormed number (f left)
  | .arguments, args | .moreArguments, args => ∀ arg ∈ args, WellFormed number arg
  | .additive, e | .multiplicative, e | .unary, e | .power, e | .atom, e => WellFormed number e

theorem meansWell (d : Derivation s) (h : ∀ k ∈ d.yield, IsRead number k) (ha : d.Allowed) :
    MeansWell number s d.tree := by
  induction d with
  | endTerms | endFactors => exact fun left hl => hl
  | noArguments | endArguments => exact fun arg harg => absurd harg List.not_mem_nil
  | number value => exact .num (h _ List.mem_cons_self)
  | var name => exact .var (h _ List.mem_cons_self)
  | unsigned p ih | plain a ih => exact ih h ha
  | parenthesized a ih =>
    rw [Derivation.yield, List.forall_mem_cons, List.forall_mem_append] at h
    exact ih h.2.1 ha
  | additive m ts ihm iht =>
    rw [Derivation.yield, List.forall_mem_append] at h
    exact iht h.2 ha.2 _ (ihm h.1 ha.1)
  | multiplicative u fs ihu ihf =>
    rw [Derivation.yield, List.forall_mem_append] at h
    exact ihf h.2 ha.2 _ (ihu h.1 ha.1)
  | term k op hk m ts ihm iht =>
    rw [Derivation.yield, List.forall_mem_cons, List.forall_mem_append] at h
    have ho : op ∈ operators.map (·.1) := by
      cases k <;> cases hk <;> simp [operators]
    exact fun left hl => iht h.2.2 ha.2 _ (.binary ho hl (ihm h.2.1 ha.1))
  | factor k op hk u fs ihu ihf =>
    rw [Derivation.yield, List.forall_mem_cons, List.forall_mem_append] at h
    have ho : op ∈ operators.map (·.1) := by
      cases k <;> cases hk <;> simp [operators]
    exact fun left hl => ihf h.2.2 ha.2 _ (.binary ho hl (ihu h.2.1 ha.1))
  | signed k op hk u ih =>
    rw [Derivation.yield, List.forall_mem_cons] at h
    have ho : op ∈ ["+", "-"] := by
      cases k <;> cases hk <;> simp
    exact .unary ho (ih h.2 ha)
  | raised a u iha ihu =>
    rw [Derivation.yield, List.forall_mem_append, List.forall_mem_cons] at h
    exact .binary (by simp [operators]) (iha h.1 ha.1) (ihu h.2.2 ha.2)
  | call name as ih =>
    rw [Derivation.yield, List.forall_mem_cons, List.forall_mem_cons, List.forall_mem_append] at h
    obtain ⟨has, f, hf, hacc⟩ := ha
    have hname : f.name = name := by simpa using List.find?_some hf
    subst hname
    exact .call (List.mem_of_find?_eq_some hf) hacc (ih h.2.2.1 has)
  | someArguments a as iha ihas =>
    rw [Derivation.yield, List.forall_mem_append] at h
    exact List.forall_mem_cons.2 ⟨iha h.1 ha.1, ihas h.2 ha.2⟩
  | argument a as iha ihas =>
    rw [Derivation.yield, List.forall_mem_cons, List.forall_mem_append] at h
    exact List.forall_mem_cons.2 ⟨iha h.2.1 ha.1, ihas h.2.2 ha.2⟩

/-- The trees that are found are well-formed. -/
theorem wellFormed_of_admits (hn : Admits number) (h : parseWithin levels text = .ok t) :
    t.WellFormed number := by
  obtain ⟨d, ⟨⟨ts, hm, hk⟩, ha⟩, -, rfl⟩ := derives_of_parseWithin h
  refine meansWell d (fun k hkd => ?_) ha
  have hmem : k ∈ kinds ts := by
    rw [hk]
    exact List.mem_append_left _ hkd
  obtain ⟨t, ht, rfl⟩ := List.mem_map.1 hmem
  exact isRead_of_munches hn hm t ht

theorem wellFormed_of_parseWithin (h : parseWithin levels text = .ok t) : t.WellFormed IsUnsigned :=
  wellFormed_of_admits admits_isUnsigned h

end Relief.Grammar
