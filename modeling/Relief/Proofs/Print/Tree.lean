import Mathlib
import Relief.Proofs.Expr.WellFormed
import Relief.Proofs.Number.Sign
import Relief.Proofs.Print.Piece

/-!
The pieces of a tree. They are a phrase, and their texts are the text of the tree.
-/
namespace Relief.Expr

open Relief.Number Piece

def numberPiece (v : Float) : Piece :=
  match constants.find? (·.2 == v) with
  | some (name, _) => .constant name v
  | none => .number (numText v).toList v

/-- The characters between the operands of an operator. -/
def separator (op : String) : List Char :=
  if op == "^" then op.toList else ' ' :: op.toList ++ [' ']

def operandPieces (operand : Expr) (ps : List Piece) (precedence : Nat) (tightSide : Bool) :
    List Piece :=
  if needsParens operand precedence tightSide then enclosed ps else ps

mutual

def pieces : Expr → List Piece
  | num value => [numberPiece value]
  | var name => [.coordinate name]
  | unary op operand =>
    op.toList.map .mark ++
      if (precedence? operand).any (· < 4) then enclosed operand.pieces else operand.pieces
  | binary op left right =>
    match operator? op with
    | none => []
    | some o =>
      operandPieces left left.pieces o.precedence (op == "^") ++
        ((separator op).map .mark ++ operandPieces right right.pieces o.precedence (op != "^"))
  | call name args => .function name :: enclosed (argumentPieces args)
  | foreign _ => []

def argumentPieces : List Expr → List Piece
  | [] => []
  | [arg] => arg.pieces
  | arg :: args => arg.pieces ++ ([',', ' '].map .mark ++ argumentPieces args)

end

variable {e : Expr} {v : Float}

/-! ### Phrases -/

theorem phrase_numberPiece (h : IsMagnitude v) : Phrase [numberPiece v] := by
  obtain ⟨m, e, hv⟩ := h
  unfold numberPiece
  split
  · next name w hc => exact .single (.constant (numText_constant hc).2) trivial trivial
  · next hc =>
    obtain ⟨d, hd, hf⟩ := printed_numText hv hc
    exact .single (.number hd hf) trivial trivial

theorem phrase_operand {ps : List Piece} (h : Phrase ps) (operand : Expr) (precedence : Nat)
    (tightSide : Bool) : Phrase (operandPieces operand ps precedence tightSide) := by
  unfold operandPieces
  split
  · exact h.enclosed
  · exact h

theorem separator_comma : Separator [',', ' '] := by
  refine ⟨by simp, by simp [marks], ?_, by simp, by simp⟩
  simp [Meets]

theorem separator_operator {op : String} (h : op ∈ operators.map (·.1)) :
    Separator (separator op) := by
  simp only [operators, List.map_cons, List.map_nil, List.mem_cons, List.not_mem_nil, or_false] at h
  obtain rfl | rfl | rfl | rfl | rfl := h <;>
    exact ⟨by simp [separator], by simp [separator, marks], by simp [separator, Meets],
      by simp [separator], by simp [separator]⟩

theorem exists_operator {op : String} (h : op ∈ operators.map (·.1)) :
    ∃ o, operator? op = some o := by
  simp only [operators, List.map_cons, List.map_nil, List.mem_cons, List.not_mem_nil, or_false] at h
  obtain rfl | rfl | rfl | rfl | rfl := h <;> exact ⟨_, rfl⟩

theorem phrase_arguments {args : List Expr} (hn : args ≠ []) (h : ∀ arg ∈ args, Phrase arg.pieces) :
    Phrase (argumentPieces args) := by
  induction args with
  | nil => exact absurd rfl hn
  | cons arg args ih =>
    cases args with
    | nil => exact h arg List.mem_cons_self
    | cons arg' args =>
      have ih := ih (List.cons_ne_nil _ _) fun a ha => h a (List.mem_cons_of_mem _ ha)
      exact (h arg List.mem_cons_self).glue ih separator_comma

theorem phrase_pieces (h : WellFormed IsMagnitude e) : Phrase e.pieces := by
  induction h with
  | num h => exact phrase_numberPiece h
  | var h => exact .single (.coordinate h) trivial trivial
  | @unary op operand ho _ ih =>
    have hp : Phrase (if (precedence? operand).any (· < 4) then enclosed operand.pieces
        else operand.pieces) := by
      split
      · exact ih.enclosed
      · exact ih
    simp only [List.mem_cons, List.not_mem_nil, or_false] at ho
    obtain rfl | rfl := ho
    · exact hp.signed (List.mem_cons_self)
    · exact hp.signed (List.mem_cons_of_mem _ List.mem_cons_self)
  | @binary op left right ho _ _ ihl ihr =>
    obtain ⟨o, hop⟩ := exists_operator ho
    simp only [pieces, hop]
    exact (phrase_operand ihl _ _ _).glue (phrase_operand ihr _ _ _) (separator_operator ho)
  | call hf ha _ ih =>
    exact (phrase_arguments (Function.ne_nil_of_accepts ha) ih).called (List.mem_map_of_mem hf)

/-! ### Texts -/

theorem text_numberPiece (v : Float) : (numberPiece v).text = (numText v).toList := by
  unfold numberPiece
  split
  · next name w hc =>
    rw [(numText_constant hc).1]
    rfl
  · rfl

theorem textOf_enclosed (ps : List Piece) : textOf (enclosed ps) = '(' :: textOf ps ++ [')'] := by
  simp [textOf, enclosed, Piece.text]

theorem textOf_append (ps qs : List Piece) : textOf (ps ++ qs) = textOf ps ++ textOf qs :=
  List.flatMap_append

theorem textOf_marks (ms : List Char) : textOf (ms.map .mark) = ms := by
  induction ms with
  | nil => rfl
  | cons c ms ih => exact congrArg (c :: ·) ih

theorem parenthesized_eq (ps : List Piece) :
    parenthesized (String.ofList (textOf ps)) = String.ofList (textOf (enclosed ps)) := by
  rw [parenthesized, textOf_enclosed, ← String.toList_inj]
  simp

theorem operandText_eq (operand : Expr) (ps : List Piece) (precedence : Nat) (tightSide : Bool) :
    operandText operand (String.ofList (textOf ps)) precedence tightSide =
      String.ofList (textOf (operandPieces operand ps precedence tightSide)) := by
  unfold operandPieces operandText
  split
  · exact parenthesized_eq ps
  · rfl

theorem joinBinary_eq (op : String) (ps qs : List Piece) :
    joinBinary op (String.ofList (textOf ps)) (String.ofList (textOf qs)) =
      String.ofList (textOf (ps ++ ((separator op).map .mark ++ qs))) := by
  rw [textOf_append, textOf_append, textOf_marks, ← String.toList_inj]
  unfold joinBinary separator
  split
  · next h =>
    rw [beq_iff_eq] at h
    simp [h]
  · simp

theorem argumentPieces_cons (arg arg' : Expr) (args : List Expr) :
    argumentPieces (arg :: arg' :: args) =
      arg.pieces ++ ([',', ' '].map .mark ++ argumentPieces (arg' :: args)) := by
  rw [argumentPieces]
  exact nofun

theorem intercalate_eq (args : List Expr) :
    String.intercalate ", " (args.map fun arg => String.ofList (textOf arg.pieces)) =
      String.ofList (textOf (argumentPieces args)) := by
  induction args with
  | nil => rfl
  | cons arg args ih =>
    cases args with
    | nil => exact String.intercalate_singleton
    | cons arg' args =>
      rw [List.map_cons] at ih
      rw [List.map_cons, List.map_cons, String.intercalate_cons_cons, ih, argumentPieces_cons,
        textOf_append, textOf_append, textOf_marks, ← String.toList_inj]
      simp

/-- Two steps that are within a depth each are within it together. -/
theorem bind_within {α β γ : Type} {m n depth : Nat} {a : α} {b : β} {e : Fault}
    (f : α → β → Except Fault γ) :
    ((if m ≤ depth then .ok a else .error e : Except Fault α) >>= fun a =>
      (if n ≤ depth then .ok b else .error e : Except Fault β) >>= f a) =
      if max m n ≤ depth then f a b else .error e := by
  by_cases h1 : m ≤ depth
  · by_cases h2 : n ≤ depth
    · rw [if_pos h1, if_pos h2, if_pos (Nat.max_le.2 ⟨h1, h2⟩)]
      rfl
    · rw [if_pos h1, if_neg h2, if_neg fun hm => h2 (Nat.max_le.1 hm).2]
      rfl
  · rw [if_neg h1, if_neg fun hm => h1 (Nat.max_le.1 hm).1]
    rfl

theorem textsWithin_eq {args : List Expr} (depth : Nat)
    (h : ∀ arg ∈ args, ∀ depth, arg.textWithin depth =
      if arg.depth ≤ depth then .ok (String.ofList (textOf arg.pieces)) else .error .tooDeep) :
    textsWithin depth args =
      if depthOfAll args ≤ depth then .ok (args.map fun arg => String.ofList (textOf arg.pieces))
      else .error .tooDeep := by
  induction args with
  | nil =>
    rw [textsWithin, depthOfAll, if_pos (Nat.zero_le _)]
    rfl
  | cons arg args ih =>
    have ih := ih fun a ha => h a (List.mem_cons_of_mem _ ha)
    rw [textsWithin, h arg List.mem_cons_self, ih, depthOfAll]
    exact bind_within _

theorem textWithin_zero (e : Expr) : e.textWithin 0 = .error .tooDeep := by
  rw [textWithin]

theorem depth_pos (e : Expr) : 0 < e.depth := by
  cases e <;> simp [Expr.depth]

/-- A well-formed tree is printed as its pieces, if it is not too deep. -/
theorem textWithin_eq {number : Float → Prop} (h : WellFormed number e) (depth : Nat) :
    e.textWithin depth =
      if e.depth ≤ depth then .ok (String.ofList (textOf e.pieces)) else .error .tooDeep := by
  induction h generalizing depth with
  | @num v h =>
    cases depth with
    | zero => exact textWithin_zero _
    | succ depth =>
      rw [textWithin, pieces, Expr.depth, if_pos (by omega)]
      simp [textOf, text_numberPiece]
  | var h =>
    cases depth with
    | zero => exact textWithin_zero _
    | succ depth =>
      rw [textWithin, pieces, Expr.depth, if_pos (by omega)]
      simp [textOf, Piece.text]
  | @unary op operand ho _ ih =>
    cases depth with
    | zero => exact textWithin_zero _
    | succ depth =>
      rw [textWithin, pieces, Expr.depth, ih, textOf_append, textOf_marks]
      simp only [Nat.add_le_add_iff_right]
      by_cases hd : operand.depth ≤ depth
      · rw [if_pos hd, if_pos hd]
        simp only [bind, Except.bind, pure, Except.pure, parenthesized_eq]
        split <;> simp
      · rw [if_neg hd, if_neg hd]
        rfl
  | @binary op left right ho _ _ ihl ihr =>
    obtain ⟨o, hop⟩ := exists_operator ho
    cases depth with
    | zero => exact textWithin_zero _
    | succ depth =>
      rw [textWithin, pieces, Expr.depth, ihl, ihr]
      simp only [hop, Nat.add_le_add_iff_right]
      rw [bind_within, ← joinBinary_eq]
      simp only [← operandText_eq]
      rfl
  | @call f args hf ha _ ih =>
    cases depth with
    | zero => exact textWithin_zero _
    | succ depth =>
      have hpos : 0 < depthOfAll args := by
        obtain ⟨a, as, rfl⟩ := List.exists_cons_of_ne_nil (Function.ne_nil_of_accepts ha)
        exact lt_max_of_lt_left a.depth_pos
      rw [textWithin, pieces, Expr.depth, textsWithin_eq _ ih]
      by_cases hd : depthOfAll args ≤ depth - 1
      · rw [if_pos hd, if_pos (by omega)]
        simp only [bind, Except.bind, pure, Except.pure, intercalate_eq, parenthesized_eq]
        simp [textOf, Piece.text]
      · rw [if_neg hd, if_neg (by omega)]
        rfl

/-! ### Trees with other numbers -/

section MapNumbers

variable {number : Float → Prop} {g : Float → Float}

theorem precedence?_mapNumbers (g : Float → Float) (e : Expr) :
    precedence? (e.mapNumbers g) = precedence? e := by
  cases e <;> rw [mapNumbers] <;> rfl

theorem needsParens_mapNumbers (g : Float → Float) (e : Expr) (precedence : Nat) (tightSide : Bool) :
    needsParens (e.mapNumbers g) precedence tightSide = needsParens e precedence tightSide := by
  cases e <;> rw [mapNumbers] <;> rfl

theorem textOf_operand (precedence : Nat) (tightSide : Bool)
    (h : textOf (e.mapNumbers g).pieces = textOf e.pieces) :
    textOf (operandPieces (e.mapNumbers g) (e.mapNumbers g).pieces precedence tightSide) =
      textOf (operandPieces e e.pieces precedence tightSide) := by
  rw [operandPieces, operandPieces, needsParens_mapNumbers]
  split
  · rw [textOf_enclosed, textOf_enclosed, h]
  · exact h

theorem textOf_argumentPieces {args : List Expr} {f : Expr → Expr}
    (h : ∀ arg ∈ args, textOf (f arg).pieces = textOf arg.pieces) :
    textOf (argumentPieces (args.map f)) = textOf (argumentPieces args) := by
  rw [← String.ofList_inj, ← intercalate_eq, ← intercalate_eq, List.map_map]
  refine congrArg _ (List.map_congr_left fun arg harg => ?_)
  rw [Function.comp_apply, h arg harg]

theorem textOf_mapNumbers (hg : ∀ v, number v → numText (g v) = numText v)
    (h : WellFormed number e) : textOf (e.mapNumbers g).pieces = textOf e.pieces := by
  induction h with
  | num h =>
    rw [mapNumbers, pieces, pieces]
    simp only [textOf, List.flatMap_singleton, text_numberPiece, hg _ h]
  | var => rw [mapNumbers]
  | @unary op operand _ _ ih =>
    rw [mapNumbers, pieces, pieces, precedence?_mapNumbers, textOf_append, textOf_append]
    split
    · rw [textOf_enclosed, textOf_enclosed, ih]
    · rw [ih]
  | @binary op left right ho _ _ ihl ihr =>
    obtain ⟨o, hop⟩ := exists_operator ho
    simp only [mapNumbers, pieces, hop, textOf_append, textOf_operand _ _ ihl, textOf_operand _ _ ihr]
  | call _ _ _ ih =>
    rw [mapNumbers, pieces, pieces, mapNumbersOfAll_eq, ← List.singleton_append, textOf_append,
      textOf_enclosed, textOf_argumentPieces ih, ← textOf_enclosed, ← textOf_append,
      List.singleton_append]

end MapNumbers

end Relief.Expr
