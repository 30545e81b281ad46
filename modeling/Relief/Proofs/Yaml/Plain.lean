import Mathlib
import Relief.Proofs.Yaml.Quoted
import Relief.Yaml.Scalar

/-!
Numbers and words without quotes in a flow collection are read up to the comma or bracket behind them.
-/
namespace Relief.Yaml

variable {c d ch : Char} {w gap cs : List Char} {cur : Cursor} {limit : Nat}

/-- A character of numbers and words. -/
def IsBare (c : Char) : Prop := c.isAlphanum = true ∨ c ∈ ['.', '+', '-']

/-- What comes behind an element of a flow collection: the next line or nothing, and a comma or a
bracket. -/
structure Closes (gap cs : List Char) : Prop where
  gap : gap = [] ∨ ∃ n, gap = '\n' :: List.replicate n ' '
  closer : ∃ ch rest, cs = ch :: rest ∧ ch ∈ [',', ']', '\x7d']

theorem IsBare.ne (h : IsBare c) (hd : d.isAlphanum = false ∧ d ∉ ['.', '+', '-']) : c ≠ d := by
  rintro rfl
  obtain h | h := h
  · rw [hd.1] at h
    cases h
  · exact hd.2 h

theorem IsBare.isBreak (h : IsBare c) : isBreak c = false := by
  have h1 := h.ne (d := '\n') (by decide)
  have h2 := h.ne (d := '\r') (by decide)
  have h3 := h.ne (d := '\x85') (by decide)
  have h4 := h.ne (d := '\u2028') (by decide)
  have h5 := h.ne (d := '\u2029') (by decide)
  simp [Yaml.isBreak, endsLine, h1, h2, h3, h4, h5]

theorem IsBare.isBlank (h : IsBare c) : isBlank c = false := by
  have h1 := h.ne (d := ' ') (by decide)
  have h2 := h.ne (d := '\t') (by decide)
  simp [Yaml.isBlank, h1, h2]

theorem IsBare.endsPlain (h : IsBare c) (cs : List Char) : endsPlain .v12 true c cs = false := by
  have hb := h.isBreak
  rw [Yaml.isBreak, Bool.or_eq_false_iff, Bool.or_eq_false_iff] at hb
  have h1 := h.ne (d := ':') (by decide)
  have h2 := h.ne (d := '?') (by decide)
  have h3 := h.ne (d := ',') (by decide)
  have h4 := h.ne (d := '[') (by decide)
  have h5 := h.ne (d := ']') (by decide)
  have h6 := h.ne (d := '\x7b') (by decide)
  have h7 := h.ne (d := '\x7d') (by decide)
  simp [Yaml.endsPlain, h1, h2, h.isBlank, hb.1.1, isFlowIndicator, h3, h4, h5, h6, h7]

theorem endsPlain_closer (h : ch ∈ [',', ']', '\x7d']) (cs : List Char) :
    endsPlain .v12 true ch cs = true := by
  simp only [List.mem_cons, List.not_mem_nil, or_false] at h
  obtain rfl | rfl | rfl := h <;> rfl

theorem plainLength_bare (hw : ∀ c ∈ w, IsBare c) (hr : Closes gap cs) :
    plainLength .v12 true (w ++ (gap ++ cs)) = w.length := by
  induction w with
  | nil =>
    obtain ⟨hg, ch, rest, rfl, hch⟩ := hr
    obtain rfl | ⟨n, rfl⟩ := hg
    · rw [List.nil_append, List.nil_append, plainLength, endsPlain_closer hch]
      rfl
    · rfl
  | cons c w ih =>
    obtain ⟨hc, hw⟩ := List.forall_mem_cons.1 hw
    rw [List.cons_append, plainLength, hc.endsPlain, ih hw]
    rfl

theorem Closes.lineBreak?_closer (hr : Closes gap cs) (hc : cur.rest = cs) :
    cur.lineBreak? = none := by
  obtain ⟨-, ch, rest, rfl, hch⟩ := hr
  refine lineBreak?_eq_none hc ?_
  simp only [List.mem_cons, List.not_mem_nil, or_false] at hch
  obtain rfl | rfl | rfl := hch <;> decide

theorem Closes.ne_blank (hr : Closes gap cs) : ∀ ch ∈ (gap ++ cs).head?, (ch == ' ') = false := by
  obtain ⟨hg, ch, rest, rfl, hch⟩ := hr
  obtain rfl | ⟨n, rfl⟩ := hg
  · rintro _ ⟨⟩
    simp only [List.mem_cons, List.not_mem_nil, or_false] at hch
    obtain rfl | rfl | rfl := hch <;> decide
  · rintro _ ⟨⟩
    decide

theorem isAnyMarker_of_ne (h : c ≠ '-') (h' : c ≠ '.') (cs : List Char) :
    isAnyMarker (c :: cs) = false := by
  have h1 : ('-' == c) = false := beq_false_of_ne (Ne.symm h)
  have h2 : ('.' == c) = false := beq_false_of_ne (Ne.symm h')
  have hs : startMarker.toList = ['-', '-', '-'] := by decide
  have he : endMarker.toList = ['.', '.', '.'] := by decide
  simp [isAnyMarker, isMarker, hs, he, List.isPrefixOf, h1, h2]

theorem Closes.isAnyMarker {n : Nat} (hr : Closes gap cs) :
    isAnyMarker (List.replicate n ' ' ++ cs) = false := by
  cases n with
  | zero =>
    obtain ⟨-, ch, rest, rfl, hch⟩ := hr
    simp only [List.mem_cons, List.not_mem_nil, or_false] at hch
    obtain rfl | rfl | rfl := hch <;> exact isAnyMarker_of_ne (by decide) (by decide) rest
  | succ n => exact isAnyMarker_of_ne (by decide) (by decide) _

theorem plainGap_closes (hr : Closes gap cs) (hc : cur.rest = gap ++ cs) (hl : 0 < limit) :
    plainGap limit cur =
      (if gap = [] then [] else [' '], cur.advance gap.length, decide (gap ≠ [])) := by
  have hspan : cur.span (· == ' ') = ([], cur) := by
    apply Cursor.span_none
    rw [hc]
    exact hr.ne_blank
  obtain rfl | ⟨n, rfl⟩ := hr.gap
  · rw [plainGap, hspan]
    simp only [hr.lineBreak?_closer hc]
    rfl
  · obtain ⟨limit, rfl⟩ := Nat.exists_eq_succ_of_ne_zero hl.ne'
    have hbreak : cur.lineBreak? = some ('\n', cur.step) := by
      rw [Cursor.lineBreak?, hc]
      rfl
    have hs : cur.step.rest = List.replicate n ' ' ++ cs :=
      congrArg Cursor.rest (Cursor.step_of_cons hc)
    have hm : isAnyMarker cur.step.rest = false := by
      rw [hs]
      exact hr.isAnyMarker
    have hskip : cur.step.skipSpaces = cur.step.advance n := by
      have h := Cursor.skip_append (p := (· == ' ')) hs (fun c hc => by
        rw [List.eq_of_mem_replicate hc]
        rfl) (by
        have h := Closes.ne_blank ⟨.inl rfl, hr.closer⟩
        exact h)
      rwa [List.length_replicate] at h
    have hr' : (cur.step.advance n).rest = cs := by
      have h := Cursor.rest_advance_append hs
      rwa [List.length_replicate] at h
    have hbreaks : plainBreaks (limit + 1) cur.step = (some [], cur.step.advance n) := by
      rw [plainBreaks, hskip]
      simp only [hr.lineBreak?_closer hr']
    rw [plainGap, hspan]
    simp only [hbreak, hm, Bool.false_eq_true, if_false, hbreaks]
    simp [foldBreaks, Cursor.advance]

/-- A bare word is read up to the comma or bracket behind it. -/
theorem plainScalar_bare (hw : ∀ c ∈ w, IsBare c) (hn : w ≠ []) (hr : Closes gap cs)
    (hc : cur.rest = w ++ (gap ++ cs)) (hl : 1 < limit) (indent : Int) :
    plainScalar .v12 true indent limit cur =
      (.text (String.ofList w), cur.advance (w.length + gap.length), decide (gap ≠ [])) := by
  obtain ⟨limit, rfl⟩ := Nat.exists_eq_add_of_le' (Nat.lt_of_lt_of_le Nat.zero_lt_two hl)
  have hlen : plainLength .v12 true cur.rest = w.length := by rw [hc, plainLength_bare hw hr]
  have hne : w.length ≠ 0 := fun h => hn (List.length_eq_zero_iff.1 h)
  have hstart : cur.startsWith '#' = false := by
    obtain ⟨c, w, rfl⟩ := List.exists_cons_of_ne_nil hn
    have hc' := (hw c List.mem_cons_self).ne (d := '#') (by decide)
    rw [Cursor.startsWith, hc]
    simp [hc']
  have htake : cur.rest.take w.length = w := by rw [hc, List.take_left]
  have hgap := plainGap_closes hr (Cursor.rest_advance_append hc) (show 0 < limit by omega)
  have hrest : ((cur.advance w.length).advance gap.length).rest = cs :=
    Cursor.rest_advance_append (Cursor.rest_advance_append hc)
  have hend : plainLength .v12 true ((cur.advance w.length).advance gap.length).rest = 0 := by
    rw [hrest]
    have h := plainLength_bare (List.forall_mem_nil _) ⟨.inl rfl, hr.closer⟩
    exact h
  rw [plainScalar, plainWords]
  simp only [hlen, hstart, Bool.false_or, decide_eq_true_eq, hne, if_false, htake, hgap]
  rw [Cursor.advance_add]
  by_cases hg : gap = []
  · subst hg
    rfl
  · obtain ⟨limit, rfl⟩ := Nat.exists_eq_add_of_le' (show 1 ≤ limit by omega)
    simp only [hg, if_false, List.isEmpty_cons, Bool.not_true, Bool.false_and, Bool.or_self,
      Bool.false_eq_true]
    rw [plainWords]
    simp [hend, Wording.ofChars]

end Relief.Yaml
