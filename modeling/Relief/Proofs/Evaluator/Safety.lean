import Mathlib
import Relief.Proofs.Evaluator.Compile
import Relief.Proofs.Number.Fields
import Relief.Proofs.Print.Tree

/-!
What is built from a text can be walked: its names and argument counts are known, its numbers are such
as can be written, and so printing and evaluation end with a result unless the tree is too deep for
them. A tree that is put together in another way can fail at every one of its nodes.
-/
namespace Relief

open Relief.Number

/-! ### Numbers that can be written -/

namespace Number

variable {v : Float}

/-- What is read from a quotient is infinite at most. -/
theorem Ratio.isNaN_toFloat (r : Ratio) : (r.toFloat false).isNaN = false := by
  have hw := r.toWord_le
  have hlt : r.toWord < 2 ^ 64 := by omega
  have hn : Binary64.ofWord r.toWord ≠ .nan := by
    simp only [Binary64.ofWord, Nat.pow_eq]
    split
    · -- the word is that of infinity, for it is no greater
      have hf : r.toWord % 2 ^ 52 = 0 := by omega
      rw [if_pos hf]
      intro h
      cases h
    · split <;> (intro h; cases h)
  change (fields (r.toFloat false)).isNaN = false
  rw [fields_eq_unpacked, toFloat, if_neg Bool.false_ne_true, Nat.zero_add, Nat.toUInt64_eq,
    ofFloat_ofBits, UInt64.toNat_ofNat_of_lt' hlt]
  cases hb : Binary64.ofWord r.toWord with
  | nan => exact absurd hb hn
  | infinite s => rfl
  | finite s m e =>
    rw [Binary64.unpacked]
    split <;> rfl

theorem Decimal.isNaN_toFloat (d : Decimal) : (d.toFloat false).isNaN = false := by
  unfold toFloat
  split
  · exact Ratio.isNaN_toFloat _
  · split
    · exact Ratio.isNaN_toFloat _
    · split <;> exact Ratio.isNaN_toFloat _

theorem nonneg_of_unsigned (h : Unsigned (fields v)) (hn : v.isNaN = false) : 0 ≤ v := by
  change (fields v).isNaN = false at hn
  rw [le_iff_compare, show fields 0 = .zero .positive from rfl]
  generalize fields v = u at h hn
  cases h with
  | notANumber => cases hn
  | infinity | zero | finite => rfl

end Number

theorem Grammar.admits_isNaN : Grammar.Admits fun v => v.isNaN = false where
  decimal := Decimal.isNaN_toFloat
  constant := by
    intro name v h
    simp only [Expr.constants, List.mem_cons, Prod.mk.injEq, List.not_mem_nil, or_false] at h
    obtain ⟨-, rfl⟩ | ⟨-, rfl⟩ := h <;> decide

/-! ### What is built -/

namespace Evaluator

variable {f : Evaluator} {source : String}

theorem numbers_of_build (h : build source = .ok f) :
    f.tree.WellFormed fun v => v.isNaN = false ∧ 0 ≤ v := by
  have hp : Parser.parseWithin Parser.maxLevels f.expanded = .ok f.tree := by
    rw [Grammar.parseWithin_maxLevels, parse_of_build h]
    rfl
  have hn := Grammar.wellFormed_of_admits Grammar.admits_isNaN hp
  exact (hn.and (wellFormed_of_build h)).mono fun v hv => ⟨hv.1, nonneg_of_unsigned hv.2 hv.1⟩

/-- What is built has known operators, known functions with as many arguments as they take, no variables
but the two coordinates, and no number that is negative or NaN. Whatever the limit of the walk, it is
printed and has a value at every point, NaN and infinities included, unless the limit is too low. -/
theorem build_safe (h : build source = .ok f) :
    f.tree.WellFormed (fun v => v.isNaN = false ∧ 0 ≤ v) ∧
      f.tree.variableNames ⊆ Token.variableNames ∧
      (∀ limit, (f.tree.depth ≤ limit → ∃ text, f.tree.textWithin limit = .ok text) ∧
        (limit < f.tree.depth → f.tree.textWithin limit = .error .tooDeep)) ∧
      (∀ limit p, (f.tree.height ≤ limit → ∃ a, f.tree.evalWithin limit p = .ok (a, p)) ∧
        (limit < f.tree.height → f.tree.evalWithin limit p = .error .tooDeep)) ∧
      ∀ x y, (f.tree.height ≤ Expr.maxDepth → ∃ v, f.call x y = .ok v) ∧
        (Expr.maxDepth < f.tree.height → f.call x y = .error .tooDeep) := by
  have hw := numbers_of_build h
  refine ⟨hw, Expr.variableNames_subset hw, fun limit => ?_, fun limit p => ?_, fun x y => ?_⟩
  · rw [Expr.textWithin_eq hw]
    exact ⟨fun hd => ⟨_, if_pos hd⟩, fun hd => if_neg (Nat.not_le_of_lt hd)⟩
  · obtain ⟨hin, hout⟩ := Expr.evaluates_of_wellFormed hw p limit
    exact ⟨fun hd => (hin hd).imp fun a ha => ha.1, hout⟩
  · exact ⟨fun hd => ⟨_, Expr.eval_eq_ok hw ⟨x, y⟩ hd⟩, Expr.eval_eq_tooDeep hw ⟨x, y⟩⟩

theorem build_safe_quotient : ∃ f, build "max(x, 1e999)/ln(-2y)" = .ok f ∧
    f.tree.variableNames ⊆ Token.variableNames ∧ ∃ v, f.call (0 / 0) (-1 / 0) = .ok v := by
  have hb : (build "max(x, 1e999)/ln(-2y)").toOption.isSome = true := by
    decide +kernel
  have hd : (build "max(x, 1e999)/ln(-2y)").toOption.all (·.tree.height ≤ Expr.maxDepth) = true := by
    decide +kernel
  cases h : build "max(x, 1e999)/ln(-2y)" with
  | ok f =>
    rw [h] at hd
    obtain ⟨-, hv, -, -, hc⟩ := build_safe h
    exact ⟨f, rfl, hv, (hc _ _).1 (of_decide_eq_true hd)⟩
  | error e =>
    rw [h] at hb
    cases hb

example : (Expr.call "sin" []).eval ⟨0, 0⟩ = .error (.wrongArguments "sin") := rfl

example : (Expr.binary "%" (.var "x") (.var "z")).eval ⟨0, 0⟩ = .error (.unknownOperator "%") := rfl

end Evaluator

end Relief
