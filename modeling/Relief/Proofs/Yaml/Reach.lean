import Mathlib
import Relief.Number.Numeral
import Relief.Proofs.Yaml.Cursor
import Relief.Yaml.Name
import Relief.Yaml.Scalar

/-!
What is left of a text while it is read is always an end of it, and whatever goes wrong in a word of it
goes wrong because of characters that the text has.
-/
namespace Relief.Yaml

open Relief.Number

/-! ### How a computation ends -/

section Ends

variable {α β : Type} {x : Except Cause α} {f : α → Except Cause β} {Q Q' : α → Prop}
  {R : β → Prop} {E : Cause → Prop}

/-- A computation ends with a result of some kind, or fails for a cause of some kind. -/
def Ends (E : Cause → Prop) (x : Except Cause α) (Q : α → Prop) : Prop :=
  match x with
  | .ok a => Q a
  | .error c => E c

theorem Ends.bind (h : Ends E x Q) (hf : ∀ a, Q a → Ends E (f a) R) : Ends E (x >>= f) R := by
  cases x with
  | ok a => exact hf a h
  | error c => exact h

theorem Ends.map {g : α → β} (h : Ends E x Q) (hg : ∀ a, Q a → R (g a)) : Ends E (x.map g) R := by
  cases x with
  | ok a => exact hg a h
  | error c => exact h

theorem Ends.mono (h : Ends E x Q) (hq : ∀ a, Q a → Q' a) : Ends E x Q' := by
  cases x with
  | ok a => exact hq a h
  | error c => exact h

theorem ends_orMalformed {found : Option α} (hc : E .malformed) (h : ∀ a, found = some a → Q a) :
    Ends E (orMalformed found) Q := by
  cases found with
  | none => exact hc
  | some a => exact h a rfl

end Ends

/-- The characters that a block or flow collection may begin with, or that may make one begin. -/
def opensCollection (c : Char) : Bool :=
  c == '-' || c == '?' || c == ':' || c == '[' || c == '\x7b'

/-- Why a text may be no document: it is malformed, or it has the characters that something else takes. -/
inductive Origin (text : List Char) : Cause → Prop where
  | malformed : Origin text .malformed
  | version : '%' ∈ text → Origin text .version
  | number : '%' ∈ text → maxDigits < text.countP Char.isDigit → Origin text .number
  | codePoint {c : Cause} : '\\' ∈ text → c = .codePoint ∨ c = .hugeCodePoint → Origin text c
  | tooDeep : 240 < text.countP opensCollection → Origin text .tooDeep

namespace Cursor

/-- What is left is an end of a text. -/
def Within (text : List Char) (c : Cursor) : Prop := c.rest <:+ text

variable {text : List Char} {c d : Cursor} {limit : Nat}

theorem Within.step (h : Within text c) : Within text c.step := by
  rw [Within, step_rest]
  exact (List.tail_suffix _).trans h

theorem Within.advance (h : Within text c) (n : Nat) : Within text (c.advance n) := by
  rw [Within, rest_advance]
  exact (List.drop_suffix _ _).trans h

theorem Within.span (h : Within text c) (p : Char → Bool) : Within text (c.span p).2 :=
  h.advance _

theorem Within.skip (h : Within text c) (p : Char → Bool) : Within text (c.skip p) :=
  h.span p

theorem Within.skipComment (h : Within text c) : Within text c.skipComment := by
  rw [Cursor.skipComment]
  split
  · exact h.skip _
  · exact h

theorem Within.lineBreak? (h : Within text c) {r : Char × Cursor} (hr : c.lineBreak? = some r) :
    Within text r.2 := by
  unfold Cursor.lineBreak? at hr
  split at hr
  · cases hr
  · cases hr
    exact h.advance 2
  · split at hr
    · cases hr
      exact h.step
    · split at hr
      · cases hr
        exact h.step
      · cases hr

theorem Within.skipBreak (h : Within text c) : Within text c.skipBreak := by
  rw [Cursor.skipBreak]
  cases hr : c.lineBreak? with
  | none => exact h
  | some r => exact h.lineBreak? hr

theorem Within.restOfLine? (h : Within text c) (hd : c.restOfLine? = some d) : Within text d := by
  unfold Cursor.restOfLine? at hd
  dsimp only at hd
  split at hd
  · cases hd
    exact (h.skip _).skipComment.skipBreak
  · cases hd

/-- A character at the cursor is one of the text. -/
theorem Within.mem (h : Within text c) {ch : Char} (hc : c.startsWith ch = true) : ch ∈ text := by
  rw [startsWith, beq_iff_eq] at hc
  exact List.IsSuffix.subset h (List.mem_of_mem_head? hc)

end Cursor

open Cursor

variable {text : List Char} {c d : Cursor} {limit : Nat}

theorem ofText_suffix (cs : List Char) : (Cursor.ofText cs).rest <:+ cs := by
  cases cs with
  | nil => exact List.suffix_rfl
  | cons c cs =>
    rw [Cursor.ofText]
    split
    · exact List.suffix_cons c cs
    · exact List.suffix_rfl

theorem skipGap_suffix (flow comment : Bool) (cs : List Char) (m : Mark) (fresh : Bool) :
    (skipGap flow comment cs m fresh).1.rest <:+ cs := by
  induction cs generalizing comment m fresh with
  | nil => rw [skipGap]
  | cons c cs ih =>
    have hcons := List.suffix_cons c cs
    rw [skipGap]
    split
    · exact (ih _ _ _).trans hcons
    · split
      · exact (ih _ _ _).trans hcons
      · split
        · exact (ih _ _ _).trans hcons
        · split
          · exact (ih _ _ _).trans hcons
          · exact List.suffix_rfl

/-! ### Texts in quotes -/

theorem quotedBreaks_within (h : Within text c) (limit : Nat) :
    Ends (Origin text) (quotedBreaks limit c) fun r => Within text r.2 := by
  induction limit generalizing c with
  | zero => exact h
  | succ limit ih =>
    rw [quotedBreaks]
    split
    · exact .malformed
    · dsimp only
      split
      · exact h.skip _
      · next b d hb => exact (ih ((h.skip _).lineBreak? hb)).map fun _ => id

theorem quotedGap_within (h : Within text c) (limit : Nat) :
    Ends (Origin text) (quotedGap limit c) fun r => Within text r.2 := by
  rw [quotedGap]
  dsimp only
  split
  · exact .malformed
  · split
    · exact h.span _
    · next b d hb => exact (quotedBreaks_within ((h.span _).lineBreak? hb) limit).map fun _ => id

theorem codePoint_ends (hb : '\\' ∈ text) (digits : List Char) :
    Ends (Origin text) (codePoint digits) fun _ => True := by
  apply Ends.bind (ends_orMalformed .malformed fun _ _ => trivial)
  intro ds _
  dsimp only
  split
  · exact .codePoint hb (.inr rfl)
  · split
    · exact .codePoint hb (.inl rfl)
    · trivial

theorem escapeAt_within (h : Within text c) (hb : '\\' ∈ text) (limit : Nat) :
    Ends (Origin text) (escapeAt limit c) fun r => Within text r.2 := by
  rw [escapeAt]
  split
  · exact .malformed
  · next k cs _ =>
    split
    · exact h.advance 2
    · next n _ _ =>
      split
      · exact (codePoint_ends hb _).map fun _ _ => h.advance _
      · exact .malformed
    · next b d hd => exact (quotedBreaks_within (h.step.lineBreak? hd) limit).map fun _ => id
    · exact .malformed

theorem quotedWord_within (h : Within text c) (quote : Char) (limit : Nat) :
    Ends (Origin text) (quotedWord quote limit c) fun r => Within text r.2 := by
  induction limit generalizing c with
  | zero => exact h
  | succ limit ih =>
    rw [quotedWord]
    split
    · exact h
    · next ch cs hc =>
      have go : ∀ r : List Nat × Cursor, Within text r.2 →
          Ends (Origin text) ((quotedWord quote limit r.2).map fun p => (r.1 ++ p.1, p.2))
            fun r => Within text r.2 := fun r hr => (ih hr).map fun _ => id
      dsimp only
      split
      · exact h
      · split
        · split
          · exact go ([_], _) (h.advance 2)
          · exact h
        · split
          · next hq =>
            have hb : ch = '\\' := beq_iff_eq.1 (Bool.and_eq_true_iff.1 hq).2
            have hm : '\\' ∈ text := h.mem (by rw [startsWith, hc, hb]; rfl)
            exact (escapeAt_within h hm limit).bind go
          · exact go ([_], _) h.step

theorem quotedWords_within (h : Within text c) (quote : Char) (limit : Nat) :
    Ends (Origin text) (quotedWords quote limit c) fun r => Within text r.2 := by
  induction limit generalizing c with
  | zero => exact .malformed
  | succ limit ih =>
    rw [quotedWords]
    apply Ends.bind (quotedWord_within h quote limit)
    intro r hr
    dsimp only
    split
    · exact hr.step
    · apply Ends.bind (quotedGap_within hr limit)
      intro gap hg
      exact (ih hg).bind fun _ => id

theorem quotedScalar_within (h : Within text c) (quote : Char) (limit : Nat) :
    Ends (Origin text) (quotedScalar quote limit c) fun r => Within text r.2 :=
  (quotedWords_within h.step quote limit).map fun _ => id

/-! ### Plain texts -/

theorem plainBreaks_within (h : Within text c) (limit : Nat) :
    Within text (plainBreaks limit c).2 := by
  induction limit generalizing c with
  | zero => exact h
  | succ limit ih =>
    rw [plainBreaks]
    dsimp only
    split
    · exact h.skip _
    · next b d hb =>
      have hd := Within.lineBreak? (h.skip _) hb
      split
      · exact hd
      · exact ih hd

theorem plainGap_within (h : Within text c) (limit : Nat) :
    Within text (plainGap limit c).2.1 := by
  rw [plainGap]
  dsimp only
  split
  · exact h.span _
  · next b d hb =>
    have hd := Within.lineBreak? (h.span _) hb
    split
    · exact hd
    · have hp := plainBreaks_within hd limit
      split
      · next he => rwa [he] at hp
      · next he => rwa [he] at hp

theorem plainWords_within (h : Within text c) (v : Version) (flow : Bool) (indent : Int)
    (limit : Nat) (gap : List Char) (broken : Bool) :
    Within text (plainWords v flow indent limit c gap broken).2.1 := by
  induction limit generalizing c gap broken with
  | zero => exact h
  | succ limit ih =>
    rw [plainWords]
    dsimp only
    split
    · exact h
    · have hg := plainGap_within (h.advance (plainLength v flow c.rest)) limit
      split
      · exact hg
      · exact ih hg _ _

theorem plainScalar_within (h : Within text c) (v : Version) (flow : Bool) (indent : Int)
    (limit : Nat) : Within text (plainScalar v flow indent limit c).2.1 :=
  plainWords_within h v flow (indent + 1) limit [] false

/-! ### Blocks -/

theorem increment?_ends (cs : List Char) :
    Ends (Origin text) (increment? cs) fun _ => True := by
  rw [increment?]
  split
  · exact .malformed
  · trivial

theorem blockHeader_within (h : Within text c) :
    Ends (Origin text) (blockHeader c) fun r => Within text r.2 := by
  have hrest : ∀ header : BlockHeader, ∀ d : Cursor, Within text d →
      Ends (Origin text) (if atWordEnd d.rest = true then do
        let d ← orMalformed d.restOfLine?
        pure (header, d) else Except.error .malformed) fun r => Within text r.2 := by
    intro header d hd
    split
    · exact (ends_orMalformed .malformed fun _ => hd.restOfLine?).bind fun _ => id
    · exact .malformed
  rw [blockHeader]
  split
  · next chomping hc =>
    apply Ends.bind (increment?_ends c.step.rest)
    intro increment _
    dsimp only
    split
    · exact hrest _ _ h.step.step
    · exact hrest _ _ h.step
  · apply Ends.bind (increment?_ends c.rest)
    intro increment _
    split
    · exact hrest _ _ h
    · dsimp only
      split
      · exact hrest _ _ h.step.step
      · exact hrest _ _ h.step

theorem leadingLines_within (h : Within text c) (limit widest : Nat) (first : Option Nat) :
    Within text (leadingLines limit widest first c).2.2.2 := by
  induction limit generalizing c widest first with
  | zero => exact h
  | succ limit ih =>
    rw [leadingLines]
    split
    · exact ih h.step _ _
    · split
      · exact h
      · next b d hd => exact ih (h.lineBreak? hd) _ _

theorem emptyLines_within (h : Within text c) (indent limit : Nat) :
    Within text (emptyLines indent limit c).2 := by
  induction limit generalizing c with
  | zero => exact h
  | succ limit ih =>
    rw [emptyLines]
    dsimp only
    split
    · exact h.advance _
    · next b d hd => exact ih (Within.lineBreak? (h.advance _) hd)

theorem blockLines_within (h : Within text c) (folded bare : Bool) (indent limit : Nat)
    (breaks : List Char) : Within text (blockLines folded bare indent limit breaks c).cursor := by
  induction limit generalizing c breaks with
  | zero => exact h
  | succ limit ih =>
    have hs := h.span (!endsLine ·)
    rw [blockLines]
    dsimp only
    split
    · next b d hb =>
      have he := emptyLines_within (hs.lineBreak? hb) indent limit
      split
      · exact he
      · exact ih he _
    · have he := emptyLines_within hs indent limit
      split
      · exact he
      · exact ih he _

theorem blockStart_within (h : Within text c) (header : BlockHeader) (indent : Int) (limit : Nat) :
    Ends (Origin text) (blockStart header indent limit c) fun r => Within text r.2.2 := by
  rw [blockStart]
  dsimp only
  split
  · exact emptyLines_within h _ _
  · split
    · exact .malformed
    · exact leadingLines_within h _ _ _

theorem blockScalar_within (h : Within text c) (indent : Int) (limit : Nat) :
    Ends (Origin text) (blockScalar indent limit c) fun r => Within text r.2 := by
  rw [blockScalar]
  apply Ends.bind (blockHeader_within h.step)
  intro header hh
  apply Ends.bind (blockStart_within hh header.1 indent limit)
  intro start hs
  dsimp only
  split
  · exact blockLines_within hs _ _ _ _ _
  · exact hs

/-! ### Names -/

theorem anchorName?_within (h : Within text c) {r : String × Cursor} (hr : anchorName? c = some r) :
    Within text r.2 := by
  unfold anchorName? at hr
  dsimp only at hr
  split at hr
  · cases hr
  · cases hr
    exact h.step.span _

theorem tagHandle?_within (h : Within text c) {r : String × Cursor} (hr : tagHandle? c = some r) :
    Within text r.2 := by
  unfold tagHandle? at hr
  dsimp only at hr
  split at hr
  · cases hr
  · split at hr
    · cases hr
      exact h.step
    · split at hr
      · cases hr
        exact (h.step.span _).step
      · cases hr

theorem octets?_within (h : Within text c) {limit : Nat} {r : List UInt8 × Cursor}
    (hr : octets? limit c = some r) : Within text r.2 := by
  induction limit generalizing c r with
  | zero =>
    cases hr
    exact h
  | succ limit ih =>
    rw [octets?] at hr
    split at hr
    · obtain ⟨o, -, hr⟩ := Option.bind_eq_some_iff.1 hr
      obtain ⟨s, hs, hr⟩ := Option.bind_eq_some_iff.1 hr
      cases hr
      have hw := ih (h.advance 3) hs
      exact hw
    · cases hr
      exact h

theorem uriChars?_within (h : Within text c) (v : Version) {limit : Nat} {r : List Char × Cursor}
    (hr : uriChars? v limit c = some r) : Within text r.2 := by
  induction limit generalizing c r with
  | zero =>
    cases hr
    exact h
  | succ limit ih =>
    rw [uriChars?] at hr
    dsimp only at hr
    split at hr
    · obtain ⟨o, ho, hr⟩ := Option.bind_eq_some_iff.1 hr
      have hw := octets?_within (h.span _) ho
      split at hr
      · cases hr
      · obtain ⟨s, hs, hr⟩ := Option.bind_eq_some_iff.1 hr
        cases hr
        have hw' := ih hw hs
        exact hw'
    · cases hr
      exact h.span _

theorem uri?_within (h : Within text c) (v : Version) {limit : Nat} {r : String × Cursor}
    (hr : uri? v limit c = some r) : Within text r.2 := by
  obtain ⟨s, hs, hr⟩ := Option.bind_eq_some_iff.1 hr
  have hw := uriChars?_within h v hs
  dsimp only at hr
  split at hr
  · cases hr
  · cases hr
    exact hw

/-- A token that is a tag. -/
def Token.IsTag (t : Token) : Prop := ∃ handle suffix, t = .tag handle suffix

theorem tagBody?_within (h : Within text c) {v : Version} {limit : Nat} {handle : String}
    {r : Token × Cursor} (hr : tagBody? v limit handle c = some r) :
    r.1.IsTag ∧ Within text r.2 := by
  have hname : ∀ s : String × Cursor, Within text s.2 →
      ((uri? v limit s.2).bind fun u => some (Token.tag (some s.1) u.1, u.2)) = some r →
      r.1.IsTag ∧ Within text r.2 := by
    intro s hs hr
    obtain ⟨u, hu, hr⟩ := Option.bind_eq_some_iff.1 hr
    cases hr
    exact ⟨⟨_, _, rfl⟩, uri?_within hs v hu⟩
  unfold tagBody? at hr
  dsimp only at hr
  split at hr
  · obtain ⟨s, hs, hr⟩ := Option.bind_eq_some_iff.1 hr
    have hw := uri?_within (h.advance 2) v hs
    split at hr
    · cases hr
      exact ⟨⟨_, _, rfl⟩, hw.step⟩
    · cases hr
  · split at hr
    · cases hr
      exact ⟨⟨_, _, rfl⟩, h.step⟩
    · split at hr
      · obtain ⟨s, hs, hr⟩ := Option.bind_eq_some_iff.1 hr
        exact hname s (tagHandle?_within h hs) hr
      · exact hname (handle, c.step) h.step hr

theorem tagAt?_within (h : Within text c) {v : Version} {limit : Nat} {r : Token × Cursor}
    (hr : tagAt? v limit c = some r) : r.1.IsTag ∧ Within text r.2 := by
  have hend : ∀ s : Token × Cursor, s.1.IsTag ∧ Within text s.2 →
      (if atWordEnd s.2.rest = true then some s else none) = some r →
      r.1.IsTag ∧ Within text r.2 := by
    intro s hs hr
    split at hr
    · cases hr
      exact hs
    · cases hr
  unfold tagAt? at hr
  split at hr
  · obtain ⟨s, hs, hr⟩ := Option.bind_eq_some_iff.1 hr
    exact hend s (tagBody?_within h.step hs) hr
  · obtain ⟨s, hs, hr⟩ := Option.bind_eq_some_iff.1 hr
    exact hend s (tagBody?_within h hs) hr

/-! ### Directives -/

theorem versionNumber_within (h : Within text c) (hp : '%' ∈ text) :
    Ends (Origin text) (versionNumber c) fun r => Within text r.2 := by
  rw [versionNumber]
  dsimp only
  split
  · exact .malformed
  · split
    · next hd =>
      apply Origin.number hp
      apply Nat.lt_of_lt_of_le hd
      have hall : (c.span Char.isDigit).1.countP Char.isDigit = (c.span Char.isDigit).1.length :=
        List.countP_eq_length.2 fun ch hc => List.mem_takeWhile_imp hc
      have hsub : (c.span Char.isDigit).1.Sublist text :=
        (List.takeWhile_sublist _).trans (List.IsSuffix.sublist h)
      exact hall ▸ hsub.countP_le
    · exact h.span _

theorem versionDirective_within (h : Within text c) (hp : '%' ∈ text) :
    Ends (Origin text) (versionDirective c) fun r => Within text r.2 := by
  rw [versionDirective]
  apply Ends.bind (versionNumber_within (h.skip _) hp)
  intro major hm
  dsimp only
  split
  · exact .malformed
  · apply Ends.bind (versionNumber_within hm.step hp)
    intro minor hn
    split
    · exact hn
    · exact .malformed

theorem handleDirective?_within (h : Within text c) {v : Version} {limit : Nat}
    {r : Directive × Cursor} (hr : handleDirective? v limit c = some r) : Within text r.2 := by
  obtain ⟨s, hs, hr⟩ := Option.bind_eq_some_iff.1 hr
  have hw := tagHandle?_within (h.skip _) hs
  dsimp only at hr
  split at hr
  · cases hr
  · obtain ⟨u, hu, hr⟩ := Option.bind_eq_some_iff.1 hr
    have hw' := uri?_within (hw.skip _) v hu
    split at hr
    · cases hr
      exact hw'
    · cases hr

theorem directiveAt_within (h : Within text c) (hp : '%' ∈ text) (v : Version) (limit : Nat) :
    Ends (Origin text) (directiveAt v limit c) fun r => Within text r.2 := by
  have hend : ∀ r : Directive × Cursor, Within text r.2 → Ends (Origin text)
      (do return (r.1, ← orMalformed r.2.restOfLine?)) fun r => Within text r.2 := fun r hr =>
    (ends_orMalformed .malformed fun _ => hr.restOfLine?).bind fun _ => id
  have hw := h.step.span isDirectiveChar
  rw [directiveAt]
  dsimp only
  split
  · exact .malformed
  · split
    · exact (versionDirective_within hw hp).bind hend
    · exact (ends_orMalformed .malformed fun _ => handleDirective?_within hw).bind hend
    · exact hend (_, _) (hw.skip _)

end Relief.Yaml
