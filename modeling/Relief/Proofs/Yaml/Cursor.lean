import Mathlib
import Relief.Yaml.Cursor

/-!
Where a cursor stands after some characters: what is left of the text, on which line, and how far on.
-/
namespace Relief.Yaml

namespace Mark

variable {m : Mark} {c : Char} {next : List Char}

theorem offset_after (m : Mark) (c : Char) (next : List Char) :
    (m.after c next).offset = m.offset + 1 := by
  rw [after]
  split <;> rfl

theorem line_after_of_ne (h : c ≠ '\n') (h' : c ≠ '\r') : (m.after c next).line = m.line := by
  rw [after, if_neg]
  simp [h, h']

theorem line_le_after (m : Mark) (c : Char) (next : List Char) : m.line ≤ (m.after c next).line := by
  rw [after]
  split
  · exact Nat.le_succ m.line
  · exact Nat.le_refl m.line

theorem line_after_break (m : Mark) (next : List Char) :
    (m.after '\n' next).line = m.line + 1 := rfl

end Mark

namespace Cursor

variable {c : Cursor} {ch : Char} {cs rest : List Char} {n : Nat}

theorem step_of_cons (h : c.rest = ch :: cs) : c.step = ⟨cs, c.mark.after ch cs⟩ := by
  rw [step, h]

theorem step_rest (c : Cursor) : c.step.rest = c.rest.tail := by
  rw [step]
  split
  · next h => rw [h]; rfl
  · next h => rw [h]; rfl

theorem rest_advance (c : Cursor) (n : Nat) : (c.advance n).rest = c.rest.drop n := by
  induction n generalizing c with
  | zero => rfl
  | succ n ih => rw [advance, ih, step_rest, List.drop_tail]

theorem advance_add (c : Cursor) (m n : Nat) : c.advance (m + n) = (c.advance m).advance n := by
  induction m generalizing c with
  | zero => rw [Nat.zero_add, advance]
  | succ m ih => rw [Nat.succ_add, advance, ih, advance]

theorem rest_advance_append (h : c.rest = cs ++ rest) : (c.advance cs.length).rest = rest := by
  rw [rest_advance, h, List.drop_left]

theorem rest_advance_one {ch : Char} (h : c.rest = ch :: rest) : (c.advance 1).rest = rest := by
  rw [rest_advance, h]
  rfl

theorem length_advance_lt {limit : Nat} (h : c.rest.length < limit) (n : Nat) :
    (c.advance n).rest.length < limit := by
  rw [rest_advance, List.length_drop]
  exact Nat.lt_of_le_of_lt (Nat.sub_le _ _) h

theorem offset_advance (h : n ≤ c.rest.length) :
    (c.advance n).mark.offset = c.mark.offset + n := by
  induction n generalizing c with
  | zero => rfl
  | succ n ih =>
    obtain ⟨ch, cs, hc⟩ := List.exists_cons_of_length_pos (Nat.lt_of_lt_of_le n.succ_pos h)
    have hn : n ≤ c.step.rest.length := by
      rw [step_rest, List.length_tail]
      omega
    rw [advance, ih hn, step_of_cons hc, Mark.offset_after]
    omega

theorem line_le_advance (c : Cursor) (n : Nat) : c.mark.line ≤ (c.advance n).mark.line := by
  induction n generalizing c with
  | zero => exact Nat.le_refl _
  | succ n ih =>
    refine Nat.le_trans ?_ (ih c.step)
    rw [step]
    split
    · exact Nat.le_refl _
    · exact Mark.line_le_after _ _ _

/-- Characters that end no line leave a cursor on its own. -/
theorem line_advance (h : c.rest = cs ++ rest) (hcs : ∀ ch ∈ cs, ch ≠ '\n' ∧ ch ≠ '\r') :
    (c.advance cs.length).mark.line = c.mark.line := by
  induction cs generalizing c with
  | nil => rfl
  | cons ch cs ih =>
    obtain ⟨hch, hcs⟩ := List.forall_mem_cons.1 hcs
    have hs := step_of_cons h
    rw [List.length_cons, advance, ih (congrArg Cursor.rest hs) hcs, hs,
      Mark.line_after_of_ne hch.1 hch.2]

theorem line_lt_advance (h : c.rest = cs ++ rest) (hcs : '\n' ∈ cs) :
    c.mark.line < (c.advance cs.length).mark.line := by
  induction cs generalizing c with
  | nil => cases hcs
  | cons ch cs ih =>
    have hs := step_of_cons h
    rw [List.length_cons, advance]
    obtain rfl | hcs := List.mem_cons.1 hcs
    · refine Nat.lt_of_lt_of_le ?_ (line_le_advance _ _)
      rw [hs, Mark.line_after_break]
      exact Nat.lt_succ_self _
    · refine Nat.lt_of_le_of_lt ?_ (ih (congrArg Cursor.rest hs) hcs)
      rw [hs]
      exact Mark.line_le_after _ _ _

/-! ### Spans -/

theorem takeWhile_append_of_all {p : Char → Bool} (hcs : ∀ ch ∈ cs, p ch = true)
    (hr : ∀ ch ∈ rest.head?, p ch = false) : (cs ++ rest).takeWhile p = cs := by
  rw [List.takeWhile_append_of_pos hcs]
  cases rest with
  | nil => simp
  | cons ch rest => simp [hr ch rfl]

theorem span_append {p : Char → Bool} (h : c.rest = cs ++ rest) (hcs : ∀ ch ∈ cs, p ch = true)
    (hr : ∀ ch ∈ rest.head?, p ch = false) : c.span p = (cs, c.advance cs.length) := by
  rw [span, h, takeWhile_append_of_all hcs hr]

theorem skip_append {p : Char → Bool} (h : c.rest = cs ++ rest) (hcs : ∀ ch ∈ cs, p ch = true)
    (hr : ∀ ch ∈ rest.head?, p ch = false) : c.skip p = c.advance cs.length := by
  rw [skip, span_append h hcs hr]

theorem span_none {p : Char → Bool} (hr : ∀ ch ∈ c.rest.head?, p ch = false) :
    c.span p = ([], c) := by
  have h : c.rest = [] ++ c.rest := rfl
  exact span_append h (List.forall_mem_nil _) hr

theorem skip_none {p : Char → Bool} (hr : ∀ ch ∈ c.rest.head?, p ch = false) : c.skip p = c := by
  rw [skip, span_none hr]

end Cursor

/-! ### Gaps -/

variable {c : Cursor} {ch : Char} {cs : List Char}

/-- Blanks and breaks between the tokens of an indented text. -/
def IsGap (cs : List Char) : Prop := ∀ ch ∈ cs, ch = ' ' ∨ ch = '\n'

/-- A character that a token may begin with. -/
def IsFirst (ch : Char) : Prop := ch ≠ '#' ∧ ch ≠ ' ' ∧ ch ≠ '\t' ∧ isBreak ch = false

theorem skipGap_first (flow : Bool) (h : IsFirst ch) (cs : List Char) (m : Mark) (fresh : Bool) :
    skipGap flow false (ch :: cs) m fresh = (⟨ch :: cs, m⟩, fresh) := by
  obtain ⟨h1, h2, h3, h4⟩ := h
  rw [skipGap]
  simp [h1, h2, h3, h4]

/-- In flow collections, gaps are passed over and change nothing. -/
theorem skipGap_append {gap : List Char} (hc : c.rest = gap ++ ch :: cs) (hg : IsGap gap)
    (h : IsFirst ch) (fresh : Bool) :
    skipGap true false c.rest c.mark fresh = (c.advance gap.length, fresh) := by
  induction gap generalizing c with
  | nil =>
    rw [hc]
    rw [List.nil_append] at hc ⊢
    rw [skipGap_first true h, ← hc]
    rfl
  | cons g gap ih =>
    obtain ⟨hg, hgap⟩ := List.forall_mem_cons.1 hg
    have hs := Cursor.step_of_cons hc
    have hskip : skipGap true false c.rest c.mark fresh =
        skipGap true false c.step.rest c.step.mark fresh := by
      rw [hs, hc, List.cons_append, skipGap]
      obtain rfl | rfl := hg
      · rfl
      · rw [Bool.not_true, Bool.or_false]
        rfl
    rw [hskip, ih (congrArg Cursor.rest hs) hgap, List.length_cons, Cursor.advance]

end Relief.Yaml
