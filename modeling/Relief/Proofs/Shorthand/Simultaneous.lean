import Mathlib
import Relief.Proofs.Shorthand.Gap
import Relief.Shorthand

/-!
Signs for products, seen from the text as it was typed: which gaps get one is told by the characters on
either side of each, with no sign put in yet, and the order of the rules makes no difference.
-/
namespace Relief.Shorthand

variable {rules rules' : List GapRule} {rule : GapRule} {before cs : List Char} {i : Nat}

/-- A gap between two characters of a text, told by how many characters stand before it, at which some
rule matches. -/
def IsProductGap (cs : List Char) (i : Nat) : Prop :=
  0 < i ∧ i < cs.length ∧ ∃ rule ∈ gapRules, rule (cs.take i).reverse (cs.drop i) = true

instance : Decidable (IsProductGap cs i) :=
  inferInstanceAs (Decidable (0 < i ∧ i < cs.length ∧
    ∃ rule ∈ gapRules, rule (cs.take i).reverse (cs.drop i) = true))

/-- A text with one `*` in each of some gaps, and otherwise as it is. -/
def withStars (gap : Nat → Prop) [DecidablePred gap] (cs : List Char) : List Char :=
  cs.zipIdx.flatMap fun (c, i) => if gap i then ['*', c] else [c]

/-- The passage along a text, with its places counted. -/
theorem insertAt_eq_flatMap (rule : GapRule) (before cs : List Char) :
    insertAt rule before cs = cs.zipIdx.flatMap fun (c, i) =>
      if rule ((cs.take i).reverse ++ before) (cs.drop i) then ['*', c] else [c] := by
  induction cs generalizing before with
  | nil => rfl
  | cons c cs ih =>
    rw [insertAt, ih, List.zipIdx_cons', List.flatMap_cons, List.flatMap_map]
    simp only [Prod.map, id, List.take_succ_cons, List.reverse_cons, List.append_assoc,
      List.cons_append, List.nil_append, List.drop_succ_cons, List.take_zero, List.reverse_nil,
      List.drop_zero]
    split <;> rfl

theorem isProductGap_iff (hi : i < cs.length) :
    IsProductGap cs i ↔ productGap (cs.take i).reverse (cs.drop i) = true := by
  rw [IsProductGap, productGap, anyOf, List.any_eq_true]
  refine ⟨fun h => h.2.2, fun h => ⟨Nat.pos_of_ne_zero ?_, hi, h⟩⟩
  rintro rfl
  obtain ⟨rule, hr, hm⟩ := h
  cases endsFactor_of_rule hr hm

/-- Signs are put into the gaps that the text has before any is put in. -/
theorem insertProducts_eq_withStars (cs : List Char) :
    insertProducts cs = withStars (IsProductGap cs) cs := by
  rw [insertProducts_eq, insertAt_eq_flatMap, withStars]
  refine List.flatMap_congr fun p hm => ?_
  obtain ⟨c, i⟩ := p
  have hi := (List.mem_zipIdx' hm).1
  dsimp only
  rw [List.append_nil]
  exact if_congr (isProductGap_iff hi).symm rfl rfl

/-- The rules in another order put in the same signs. -/
theorem foldl_insertAt_of_perm (h : rules.Perm gapRules) (cs : List Char) :
    rules.foldl (fun cs rule => insertAt rule [] cs) cs = insertProducts cs := by
  have hany : anyOf rules = productGap := funext fun _ => funext fun _ => h.any_eq
  rw [foldl_insertAt h.subset, hany, insertProducts_eq]

/-- Between neighbouring characters where a rule matches in the text as it is given, one sign is put, and
nothing else is changed. The rules may be applied in any order, each in a pass on the outcome of the one
before. -/
theorem multiplies_at_once (text : String) :
    multiplyText text = String.ofList (withStars (IsProductGap text.toList) text.toList) ∧
      ∀ rules : List GapRule, rules.Perm gapRules →
        multiplyText text =
          String.ofList (rules.foldl (fun cs rule => insertAt rule [] cs) text.toList) :=
  ⟨congrArg String.ofList (insertProducts_eq_withStars _),
    fun _ h => congrArg String.ofList (foldl_insertAt_of_perm h _).symm⟩

/-- From the last rule to the first, the rules make the same of `2x(y)sin(xy)`. -/
theorem multiplies_at_once_backwards : gapRules.reverse.Perm gapRules ∧
    String.ofList (gapRules.reverse.foldl (fun cs rule => insertAt rule [] cs)
      "2x(y)sin(xy)".toList) = "2*x*(y)*sin(x*y)" := by
  have hp := List.reverse_perm gapRules
  have hm : multiplyText "2x(y)sin(xy)" = "2*x*(y)*sin(x*y)" := by decide
  exact ⟨hp, ((multiplies_at_once "2x(y)sin(xy)").2 _ hp).symm.trans hm⟩

end Relief.Shorthand
