import Mathlib.Data.List.Chain
import Relief.Proofs.Grammar.Derivation

/-!
What stands side by side in a row of tokens that is derived: after an atom comes an operator, a comma or a
parenthesis that closes, and after the name of a function the parenthesis of its arguments.
-/
namespace Relief.Grammar

open Relief.Token Relief.Parser

variable {s : Symbol} {k k' : Kind} {op : String} {ks : List Kind}

/-- The last token of an atom. -/
def endsAtom : Kind → Bool
  | .number _ | .var _ | .closeParen => true
  | _ => false

def isFunction : Kind → Bool
  | .func _ => true
  | _ => false

/-- What may stand side by side. -/
structure Adjacent (k k' : Kind) : Prop where
  atom : endsAtom k = true → beginsAtom k' = false
  function : isFunction k = true → k' = .openParen

/-- Nothing is asked of what follows an operator, a comma or a parenthesis that opens. -/
theorem adjacent_of_join (h : endsAtom k = false) (hf : isFunction k = false) : Adjacent k k' where
  atom ht := by
    rw [h] at ht
    cases ht
  function ht := by
    rw [hf] at ht
    cases ht

theorem adjacent_of_endsAtom (h : isFunction k = false) (hk : beginsAtom k' = false) :
    Adjacent k k' where
  atom _ := hk
  function ht := by
    rw [h] at ht
    cases ht

theorem additiveOp_joins (h : additiveOp? k = some op) :
    endsAtom k = false ∧ isFunction k = false ∧ beginsAtom k = false := by
  cases k <;> first | exact ⟨rfl, rfl, rfl⟩ | cases h

theorem multiplicativeOp_joins (h : multiplicativeOp? k = some op) :
    endsAtom k = false ∧ isFunction k = false ∧ beginsAtom k = false := by
  cases k <;> first | exact ⟨rfl, rfl, rfl⟩ | cases h

theorem isChain_join (h : endsAtom k = false) (hf : isFunction k = false) (hc : ks.IsChain Adjacent) :
    (k :: ks).IsChain Adjacent :=
  List.isChain_cons.2 ⟨fun _ _ => adjacent_of_join h hf, hc⟩

theorem isChain_endsAtom (h : isFunction k = false) (hk : ∀ k' ∈ ks.head?, beginsAtom k' = false)
    (hc : ks.IsChain Adjacent) : (k :: ks).IsChain Adjacent :=
  List.isChain_cons.2 ⟨fun k' hk' => adjacent_of_endsAtom h (hk k' hk'), hc⟩

/-- The repeated parts, which continue what stands before them. -/
def isRepeated : Symbol → Bool
  | .terms | .factors | .moreArguments => true
  | _ => false

/-- What is derived may stand before a row that no atom begins. A repeated part begins with no atom. -/
theorem Derivation.isChain_append (d : Derivation s) (hc : ks.IsChain Adjacent)
    (hk : ∀ k ∈ ks.head?, beginsAtom k = false) :
    (d.yield ++ ks).IsChain Adjacent ∧
      (isRepeated s = true → ∀ k ∈ (d.yield ++ ks).head?, beginsAtom k = false) := by
  have hhead : ∀ {k ks}, beginsAtom k = false → ∀ k' ∈ (k :: ks).head?, beginsAtom k' = false := by
    rintro k ks h k' ⟨⟩
    exact h
  induction d generalizing ks with
  | endTerms | endFactors | endArguments => exact ⟨hc, fun _ => hk⟩
  | noArguments => exact ⟨hc, fun h => absurd h Bool.false_ne_true⟩
  | unsigned p ih | plain a ih => exact ⟨(ih hc hk).1, fun h => absurd h Bool.false_ne_true⟩
  | additive m ts ihm iht =>
    obtain ⟨ht, hth⟩ := iht hc hk
    rw [Derivation.yield, List.append_assoc]
    exact ⟨(ihm ht (hth rfl)).1, fun h => absurd h Bool.false_ne_true⟩
  | term k op h m ts ihm iht =>
    obtain ⟨ht, hth⟩ := iht hc hk
    obtain ⟨hend, hfun, hbeg⟩ := additiveOp_joins h
    rw [Derivation.yield, List.cons_append, List.append_assoc]
    exact ⟨isChain_join hend hfun (ihm ht (hth rfl)).1, fun _ => hhead hbeg⟩
  | multiplicative u fs ihu ihf =>
    obtain ⟨hf, hfh⟩ := ihf hc hk
    rw [Derivation.yield, List.append_assoc]
    exact ⟨(ihu hf (hfh rfl)).1, fun h => absurd h Bool.false_ne_true⟩
  | factor k op h u fs ihu ihf =>
    obtain ⟨hf, hfh⟩ := ihf hc hk
    obtain ⟨hend, hfun, hbeg⟩ := multiplicativeOp_joins h
    rw [Derivation.yield, List.cons_append, List.append_assoc]
    exact ⟨isChain_join hend hfun (ihu hf (hfh rfl)).1, fun _ => hhead hbeg⟩
  | signed k op h u ih =>
    obtain ⟨hend, hfun, -⟩ := additiveOp_joins h
    exact ⟨isChain_join hend hfun (ih hc hk).1, fun h => absurd h Bool.false_ne_true⟩
  | raised a u iha ihu =>
    rw [Derivation.yield, List.append_assoc, List.cons_append]
    have hcaret := @isChain_join .caret _ rfl rfl (ihu hc hk).1
    exact ⟨(iha hcaret (hhead rfl)).1, fun h => absurd h Bool.false_ne_true⟩
  | number value => exact ⟨isChain_endsAtom rfl hk hc, fun h => absurd h Bool.false_ne_true⟩
  | var name => exact ⟨isChain_endsAtom rfl hk hc, fun h => absurd h Bool.false_ne_true⟩
  | parenthesized a ih =>
    rw [Derivation.yield, List.cons_append, List.append_assoc, List.singleton_append]
    have hclose := @isChain_endsAtom .closeParen _ rfl hk hc
    exact ⟨isChain_join rfl rfl (ih hclose (hhead rfl)).1, fun h => absurd h Bool.false_ne_true⟩
  | call name as ih =>
    rw [Derivation.yield, List.cons_append, List.cons_append, List.append_assoc,
      List.singleton_append]
    have hclose := @isChain_endsAtom .closeParen _ rfl hk hc
    have hopen := @isChain_join .openParen _ rfl rfl (ih hclose (hhead rfl)).1
    refine ⟨List.isChain_cons.2 ⟨?_, hopen⟩, fun h => absurd h Bool.false_ne_true⟩
    rintro k' ⟨⟩
    exact ⟨fun h => absurd h Bool.false_ne_true, fun _ => rfl⟩
  | someArguments a as iha ihs =>
    obtain ⟨hs, hsh⟩ := ihs hc hk
    rw [Derivation.yield, List.append_assoc]
    exact ⟨(iha hs (hsh rfl)).1, fun h => absurd h Bool.false_ne_true⟩
  | argument a as iha ihs =>
    obtain ⟨hs, hsh⟩ := ihs hc hk
    rw [Derivation.yield, List.cons_append, List.append_assoc]
    exact ⟨isChain_join rfl rfl (iha hs (hsh rfl)).1, fun _ => hhead rfl⟩

theorem Derivation.isChain_yield (d : Derivation s) : d.yield.IsChain Adjacent := by
  have h := d.isChain_append List.isChain_nil (by simp)
  rw [List.append_nil] at h
  exact h.1

end Relief.Grammar
