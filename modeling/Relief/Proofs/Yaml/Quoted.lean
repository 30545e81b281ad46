import Mathlib
import Relief.Format.Json
import Relief.Proofs.Yaml.Cursor
import Relief.Yaml.Quoted

/-!
Texts in double quotes, as JSON escapes them, are read back as they are, unless they hold breaks that are
folded.
-/
namespace Relief.Yaml

open Relief.Format Relief.Text

/-! ### Escapes -/

/-- The separators of lines and of paragraphs. -/
def separators : List Char := ['\u2028', '\u2029']

/-- A text as it stands between the quotes. -/
def escaped (cs : List Char) : List Char := cs.flatMap (Json.escapeChar false)

variable {c d ch : Char} {cs w rest : List Char} {cur : Cursor} {limit : Nat}

/-- A character is escaped by a letter or by its number, or stands for itself. -/
theorem escapeChar_cases (c : Char) :
    (∃ k, Json.escapeChar false c = ['\\', k] ∧ letterEscapes.lookup k = some c ∧
      0x20 ≤ k.toNat ∧ k.toNat ≤ 0x7E) ∨
    (c.toNat < 0x20 ∧ Json.escapeChar false c = '\\' :: 'u' :: hex 4 c.toNat) ∨
    (0x20 ≤ c.toNat ∧ c ≠ '"' ∧ c ≠ '\\' ∧ Json.escapeChar false c = [c]) := by
  unfold Json.escapeChar
  split
  · exact .inl ⟨'"', rfl, by decide, by decide, by decide⟩
  · exact .inl ⟨'\\', rfl, by decide, by decide, by decide⟩
  · exact .inl ⟨'n', rfl, by decide, by decide, by decide⟩
  · exact .inl ⟨'r', rfl, by decide, by decide, by decide⟩
  · exact .inl ⟨'t', rfl, by decide, by decide, by decide⟩
  · exact .inl ⟨'b', rfl, by decide, by decide, by decide⟩
  · exact .inl ⟨'f', rfl, by decide, by decide, by decide⟩
  · next h1 h2 _ _ _ _ _ =>
    dsimp only
    split
    · next h => exact .inr (.inl ⟨h, rfl⟩)
    · next h =>
      refine .inr (.inr ⟨Nat.not_lt.1 h, h1, h2, ?_⟩)
      rw [Bool.not_false, Bool.or_true, if_pos rfl]

theorem escaped_cons (c : Char) (cs : List Char) :
    escaped (c :: cs) = Json.escapeChar false c ++ escaped cs :=
  List.flatMap_cons

theorem escaped_append (cs ds : List Char) : escaped (cs ++ ds) = escaped cs ++ escaped ds :=
  List.flatMap_append

theorem codePoint_hex : ∀ n < 0x20, codePoint (hex 4 n) = .ok n ∧ (hex 4 n).length = 4 := by
  decide

/-- What is written for a character is visible, unless it is the character itself. -/
theorem visible_of_mem_escapeChar (h : ch ∈ Json.escapeChar false c) :
    0x20 ≤ ch.toNat ∧ (ch.toNat ≤ 0x7E ∨ ch = c) := by
  obtain ⟨k, hk, -, hv⟩ | ⟨hlt, hk⟩ | ⟨hge, -, -, hk⟩ := escapeChar_cases c
  · rw [hk, List.mem_cons, List.mem_singleton] at h
    obtain rfl | rfl := h
    · exact ⟨by decide, .inl (by decide)⟩
    · exact ⟨hv.1, .inl hv.2⟩
  · have hx : ∀ n < 0x20, (hex 4 n).all fun d => 0x20 ≤ d.toNat && d.toNat ≤ 0x7E := by
      decide
    rw [hk, List.mem_cons, List.mem_cons] at h
    obtain rfl | rfl | h := h
    · exact ⟨by decide, .inl (by decide)⟩
    · exact ⟨by decide, .inl (by decide)⟩
    · have hd := List.all_eq_true.1 (hx _ hlt) ch h
      rw [Bool.and_eq_true, decide_eq_true_eq, decide_eq_true_eq] at hd
      exact ⟨hd.1, .inl hd.2⟩
  · rw [hk, List.mem_singleton] at h
    subst h
    exact ⟨hge, .inr rfl⟩

theorem escapeAt_letter {k : Char} (hk : letterEscapes.lookup k = some c)
    (hc : cur.rest = '\\' :: k :: rest) :
    escapeAt limit cur = .ok ([c.toNat], cur.advance 2) := by
  have hs : cur.step.rest = k :: rest := congrArg Cursor.rest (Cursor.step_of_cons hc)
  simp only [escapeAt, hs, hk]

theorem escapeAt_number {n : Nat} (hn : n < 0x20)
    (hc : cur.rest = '\\' :: 'u' :: hex 4 n ++ rest) :
    escapeAt limit cur = .ok ([n], cur.advance 6) := by
  obtain ⟨hp, hl⟩ := codePoint_hex n hn
  have hs : cur.step.rest = 'u' :: (hex 4 n ++ rest) :=
    congrArg Cursor.rest (Cursor.step_of_cons hc)
  have hletter : letterEscapes.lookup 'u' = none := by decide
  have hnumber : numberEscapes.lookup 'u' = some 4 := by decide
  have ht : (hex 4 n ++ rest).take 4 = hex 4 n := List.take_left' hl
  simp only [escapeAt, hs, hletter, hnumber, ht, hl, if_true, hp]
  rfl

/-- A character that belongs to a word. -/
def IsInner (c : Char) : Prop := c ≠ ' ' ∧ isBreak c = false ∨ c.toNat < 0x20

theorem isBlank_backslash : (isBlank '\\' || isBreak '\\') = false := by decide

theorem inner_not_gap (h : IsInner c) (hn : 0x20 ≤ c.toNat) :
    (isBlank c || isBreak c) = false := by
  obtain ⟨h1, h2⟩ | h := h
  · have ht : c ≠ '\t' := by
      rintro rfl
      exact absurd hn (by decide)
    simp [isBlank, h1, h2, ht]
  · omega

/-- A character within a word is read as itself. -/
theorem quotedWord_char (h : IsInner c) (hc : cur.rest = Json.escapeChar false c ++ rest) :
    quotedWord '"' (limit + 1) cur =
      (quotedWord '"' limit (cur.advance (Json.escapeChar false c).length)).map
        fun p => (c.toNat :: p.1, p.2) := by
  obtain ⟨k, hk, hl, -⟩ | ⟨hlt, hk⟩ | ⟨hge, h1, h2, hk⟩ := escapeChar_cases c
  · rw [hk] at hc ⊢
    have he : escapeAt limit cur = .ok ([c.toNat], cur.advance 2) := escapeAt_letter hl hc
    rw [quotedWord, hc]
    simp only [List.cons_append, isBlank_backslash, Bool.false_eq_true, if_false]
    rw [if_neg (by decide), if_pos (by decide), he]
    rfl
  · rw [hk] at hc ⊢
    have he : escapeAt limit cur = .ok ([c.toNat], cur.advance 6) := escapeAt_number hlt hc
    have hlen : ('\\' :: 'u' :: hex 4 c.toNat).length = 6 := by
      rw [List.length_cons, List.length_cons, (codePoint_hex _ hlt).2]
    rw [quotedWord, hc, hlen]
    simp only [List.cons_append, isBlank_backslash, Bool.false_eq_true, if_false]
    rw [if_neg (by decide), if_pos (by decide), he]
    rfl
  · rw [hk] at hc ⊢
    rw [quotedWord, hc]
    have hq : (c == '"') = false := beq_false_of_ne h1
    have hb : (c == '\\') = false := beq_false_of_ne h2
    simp only [List.singleton_append, inner_not_gap h hge, Bool.false_eq_true, if_false, hq, hb,
      Bool.and_false]
    rfl

/-- What a word ends at: a blank, a separator or the closing quote. -/
def EndsWord (cs : List Char) : Prop :=
  ∃ ch ds, cs = ch :: ds ∧ (ch = ' ' ∨ ch ∈ separators ∨ ch = '"')

theorem quotedWord_end (h : EndsWord cur.rest) : quotedWord '"' limit cur = .ok ([], cur) := by
  obtain ⟨ch, ds, hc, h⟩ := h
  cases limit with
  | zero => rfl
  | succ limit =>
    rw [quotedWord, hc]
    simp only [separators, List.mem_cons, List.not_mem_nil, or_false] at h
    obtain rfl | (rfl | rfl) | rfl := h <;> rfl

/-- A word is read as itself. -/
theorem quotedWord_word (hw : ∀ c ∈ w, IsInner c) (hc : cur.rest = escaped w ++ rest)
    (hr : EndsWord rest) (hl : w.length ≤ limit) :
    quotedWord '"' limit cur = .ok (w.map Char.toNat, cur.advance (escaped w).length) := by
  induction w generalizing cur limit with
  | nil => exact quotedWord_end (by rwa [hc])
  | cons c w ih =>
    obtain ⟨h, hw⟩ := List.forall_mem_cons.1 hw
    obtain ⟨limit, rfl⟩ := Nat.exists_eq_add_of_le' (Nat.lt_of_lt_of_le w.length.succ_pos hl)
    rw [escaped_cons, List.append_assoc] at hc
    rw [quotedWord_char h hc, ih hw (Cursor.rest_advance_append hc) (Nat.le_of_succ_le_succ hl),
      escaped_cons, List.length_append, Cursor.advance_add]
    rfl

/-! ### Texts that are kept -/

/-- Texts that are the same when they are read back: all their characters may stand in a text, none is
a break that becomes another, and next to a separator there is no blank, and behind it no mark of a
document. -/
structure Kept (cs : List Char) : Prop where
  allowed : ∀ c ∈ cs, c.toNat < 0x20 ∨ isAllowed c = true
  unbroken : '\x85' ∉ cs
  unfolded : ∀ s ∈ separators, ¬ [' ', s] <:+: cs ∧ ¬ [s, ' '] <:+: cs
  unmarked : ∀ s ∈ separators, ¬ s :: "--- ".toList <:+: cs ∧ ¬ s :: "... ".toList <:+: cs

theorem Kept.of_infix {ds : List Char} (h : Kept cs) (hd : ds <:+: cs) : Kept ds where
  allowed c hc := h.allowed c (hd.subset hc)
  unbroken hc := h.unbroken (hd.subset hc)
  unfolded s hs :=
    ⟨fun hi => (h.unfolded s hs).1 (hi.trans hd), fun hi => (h.unfolded s hs).2 (hi.trans hd)⟩
  unmarked s hs :=
    ⟨fun hi => (h.unmarked s hs).1 (hi.trans hd), fun hi => (h.unmarked s hs).2 (hi.trans hd)⟩

/-- What an escaped text starts with. -/
theorem exists_cons_of_escaped (hd : d ≠ '\\') (hq : d ≠ '"') {ds : List Char}
    (h : escaped cs ++ '"' :: rest = d :: ds) :
    ∃ cs', cs = d :: cs' ∧ ds = escaped cs' ++ '"' :: rest := by
  cases cs with
  | nil => exact absurd (List.cons.inj h).1.symm hq
  | cons c cs =>
    rw [escaped_cons, List.append_assoc] at h
    obtain ⟨k, hk, -⟩ | ⟨-, hk⟩ | ⟨-, -, -, hk⟩ := escapeChar_cases c
    · rw [hk] at h
      exact absurd (List.cons.inj h).1.symm hd
    · rw [hk] at h
      exact absurd (List.cons.inj h).1.symm hd
    · rw [hk] at h
      obtain ⟨rfl, rfl⟩ := List.cons.inj h
      exact ⟨cs, rfl, rfl⟩

/-- After an escaped text a gap is a blank that stands in it. -/
theorem exists_blank_of_atGap (hn : '\x85' ∉ cs) (h : atGap (escaped cs ++ '"' :: rest) = true) :
    ∃ cs', cs = ' ' :: cs' := by
  cases cs with
  | nil => cases h
  | cons c cs =>
    rw [escaped_cons, List.append_assoc, atGap] at h
    obtain ⟨k, hk, -⟩ | ⟨-, hk⟩ | ⟨hge, -, -, hk⟩ := escapeChar_cases c
    · rw [hk] at h
      cases h
    · rw [hk] at h
      cases h
    · rw [hk] at h
      have hne : c ≠ '\x85' := fun hc => hn (hc ▸ List.mem_cons_self)
      have hlow : ∀ e : Char, e.toNat < 0x20 → c ≠ e := by
        rintro e he rfl
        omega
      have h1 := hlow '\t' (by decide)
      have h2 := hlow '\n' (by decide)
      have h3 := hlow '\r' (by decide)
      obtain rfl : c = ' ' := by simpa [isBlank, endsLine, h1, h2, h3, hne] using h
      exact ⟨cs, rfl⟩

/-- Where a mark of a document stands in an escaped text, it stands in the text. -/
theorem exists_mark (hd : d ≠ '\\') (hq : d ≠ '"') {marker : String}
    (hm : marker.toList = [d, d, d]) (hn : '\x85' ∉ cs)
    (h : isMarker marker (escaped cs ++ '"' :: rest) = true) :
    ∃ cs', cs = d :: d :: d :: ' ' :: cs' := by
  rw [isMarker, Bool.and_eq_true, hm, List.isPrefixOf_iff_prefix] at h
  obtain ⟨⟨ds, hp⟩, hg⟩ := h
  obtain ⟨c1, rfl, h1⟩ := exists_cons_of_escaped hd hq hp.symm
  obtain ⟨c2, rfl, h2⟩ := exists_cons_of_escaped hd hq h1.symm
  obtain ⟨c3, rfl, h3⟩ := exists_cons_of_escaped hd hq h2.symm
  have hlen : marker.length = 3 := by rw [← String.length_toList, hm]; rfl
  rw [← hp, hlen] at hg
  change atGap ds = true at hg
  have h3 : ds = escaped c3 ++ '"' :: rest := h3
  rw [h3] at hg
  obtain ⟨c4, rfl⟩ := exists_blank_of_atGap
    (fun hc => hn (by simp [hc])) hg
  exact ⟨c4, rfl⟩

theorem isAnyMarker_eq_false {s : Char} (hs : s ∈ separators) (h : Kept (s :: cs)) :
    isAnyMarker (escaped cs ++ '"' :: rest) = false := by
  have hn : '\x85' ∉ cs := fun hc => h.unbroken (List.mem_cons_of_mem s hc)
  rw [isAnyMarker, Bool.or_eq_false_iff]
  refine ⟨Bool.eq_false_iff.2 fun hm => ?_, Bool.eq_false_iff.2 fun hm => ?_⟩
  · obtain ⟨cs', rfl⟩ := exists_mark (d := '-') (by decide) (by decide) (by decide) hn hm
    exact (h.unmarked s hs).1 ⟨[], cs', rfl⟩
  · obtain ⟨cs', rfl⟩ := exists_mark (d := '.') (by decide) (by decide) (by decide) hn hm
    exact (h.unmarked s hs).2 ⟨[], cs', rfl⟩

/-! ### Gaps -/

theorem lineBreak?_separator {s : Char} (hs : s ∈ separators) (hc : cur.rest = s :: rest) :
    cur.lineBreak? = some (s, cur.advance 1) := by
  simp only [separators, List.mem_cons, List.not_mem_nil, or_false] at hs
  obtain rfl | rfl := hs <;> rw [Cursor.lineBreak?, hc] <;> rfl

theorem lineBreak?_eq_none (hc : cur.rest = ch :: rest) (h : isBreak ch = false) :
    cur.lineBreak? = none := by
  have he : endsLine ch = false := by
    rw [isBreak, Bool.or_eq_false_iff, Bool.or_eq_false_iff] at h
    exact h.1.1
  have hr : ch ≠ '\r' := by
    rintro rfl
    cases he
  unfold Cursor.lineBreak?
  rw [hc]
  split
  · next hn => cases hn
  · next hn => exact absurd (List.cons.inj hn).1 hr
  · next hn =>
    obtain ⟨rfl, -⟩ := List.cons.inj hn
    rw [he, h]
    rfl

theorem isInner_of_ne (h1 : c ≠ ' ') (h2 : c ∉ separators) (h3 : c ≠ '\x85') : IsInner c := by
  by_cases hlt : c.toNat < 0x20
  · exact .inr hlt
  · have hn : c ≠ '\n' := by
      rintro rfl
      exact hlt (by decide)
    have hr : c ≠ '\r' := by
      rintro rfl
      exact hlt (by decide)
    simp only [separators, List.mem_cons, List.not_mem_nil, or_false, not_or] at h2
    exact .inl ⟨h1, by simp [isBreak, endsLine, hn, hr, h2, h3]⟩

/-- An escaped text that does not start with a gap does not look so either. -/
theorem exists_first (h : ∀ c ∈ cs.head?, IsInner c) (rest : List Char) :
    ∃ ch ds, escaped cs ++ '"' :: rest = ch :: ds ∧ isBlank ch = false ∧ isBreak ch = false := by
  cases cs with
  | nil => exact ⟨'"', rest, rfl, by decide, by decide⟩
  | cons c cs =>
    rw [escaped_cons, List.append_assoc]
    obtain ⟨k, hk, -⟩ | ⟨-, hk⟩ | ⟨hge, -, -, hk⟩ := escapeChar_cases c
    · rw [hk]
      exact ⟨_, _, rfl, by decide, by decide⟩
    · rw [hk]
      exact ⟨_, _, rfl, by decide, by decide⟩
    · rw [hk]
      have hg := inner_not_gap (h c rfl) hge
      rw [Bool.or_eq_false_iff] at hg
      exact ⟨_, _, rfl, hg.1, hg.2⟩

theorem escaped_gap {g : List Char} (hg : ∀ c ∈ g, c = ' ' ∨ c ∈ separators) : escaped g = g := by
  induction g with
  | nil => rfl
  | cons c g ih =>
    obtain ⟨hc, hg⟩ := List.forall_mem_cons.1 hg
    have he : Json.escapeChar false c = [c] := by
      simp only [separators, List.mem_cons, List.not_mem_nil, or_false] at hc
      obtain rfl | rfl | rfl := hc <;> rfl
    rw [escaped_cons, he, ih hg]
    rfl

theorem quotedBreaks_separators {s : Char} {ss : List Char} (hs : s ∈ separators)
    (hss : ∀ c ∈ ss, c ∈ separators) (hk : Kept (s :: (ss ++ cs)))
    (hf : ∀ c ∈ cs.head?, IsInner c) (hc : cur.rest = ss ++ (escaped cs ++ '"' :: rest))
    (hl : ss.length < limit) : quotedBreaks limit cur = .ok (ss, cur.advance ss.length) := by
  induction ss generalizing s cur limit with
  | nil =>
    obtain ⟨limit, rfl⟩ := Nat.exists_eq_succ_of_ne_zero (Nat.ne_zero_of_lt hl)
    obtain ⟨ch, ds, hd, hb, hn⟩ := exists_first hf rest
    rw [List.nil_append] at hc hk
    have hm : isAnyMarker cur.rest = false := by
      rw [hc]
      exact isAnyMarker_eq_false hs hk
    rw [hd] at hc
    have hskip : cur.skip isBlank = cur := by
      apply Cursor.skip_none
      rw [hc]
      rintro _ ⟨⟩
      exact hb
    rw [quotedBreaks, hm, hskip]
    simp only [Bool.false_eq_true, if_false, lineBreak?_eq_none hc hn]
    rfl
  | cons s' ss ih =>
    obtain ⟨limit, rfl⟩ := Nat.exists_eq_succ_of_ne_zero (Nat.ne_zero_of_lt hl)
    obtain ⟨hs', hss⟩ := List.forall_mem_cons.1 hss
    have hm : isAnyMarker cur.rest = false := by
      have he : escaped (s' :: ss) = s' :: ss :=
        escaped_gap fun c hc => .inr (List.forall_mem_cons.2 ⟨hs', hss⟩ c hc)
      rw [hc, ← he, ← List.append_assoc, ← escaped_append]
      exact isAnyMarker_eq_false hs hk
    have hb : isBlank s' = false := by
      simp only [separators, List.mem_cons, List.not_mem_nil, or_false] at hs'
      obtain rfl | rfl := hs' <;> decide
    have hskip : cur.skip isBlank = cur := by
      apply Cursor.skip_none
      rw [hc]
      rintro _ ⟨⟩
      exact hb
    have hr := ih hs' hss (hk.of_infix (List.infix_cons (List.infix_refl _)))
      (Cursor.rest_advance_one hc) (Nat.lt_of_succ_lt_succ hl)
    rw [quotedBreaks, hm, hskip]
    simp only [Bool.false_eq_true, if_false, lineBreak?_separator hs' hc, hr]
    rw [List.length_cons, Nat.add_comm ss.length, Cursor.advance_add]
    rfl

/-- Blanks, or separators. -/
def IsEven (g : List Char) : Prop := (∀ c ∈ g, c = ' ') ∨ ∀ c ∈ g, c ∈ separators

/-- A gap is read as itself, if nothing is folded. -/
theorem quotedGap_even {g : List Char} (hg : IsEven g) (hn : g ≠ []) (hk : Kept (g ++ cs))
    (hf : ∀ c ∈ cs.head?, IsInner c) (hc : cur.rest = g ++ (escaped cs ++ '"' :: rest))
    (hl : g.length ≤ limit) : quotedGap limit cur = .ok (g, cur.advance g.length) := by
  obtain ⟨ch, ds, hd, hb, hbr⟩ := exists_first hf rest
  obtain hg | hg := hg
  · have hspan : cur.span isBlank = (g, cur.advance g.length) := by
      refine Cursor.span_append hc (fun c hc => ?_) ?_
      · rw [hg c hc]
        decide
      · rw [hd]
        rintro _ ⟨⟩
        exact hb
    have hr : (cur.advance g.length).rest = ch :: ds := by
      rw [Cursor.rest_advance_append hc, hd]
    rw [quotedGap, hspan]
    simp only [hr, List.isEmpty_cons, Bool.false_eq_true, if_false, lineBreak?_eq_none hr hbr]
  · obtain ⟨s, ss, rfl⟩ := List.exists_cons_of_ne_nil hn
    obtain ⟨hs, hss⟩ := List.forall_mem_cons.1 hg
    have hsb : isBlank s = false ∧ s ≠ '\n' := by
      simp only [separators, List.mem_cons, List.not_mem_nil, or_false] at hs
      obtain rfl | rfl := hs <;> decide
    have hspan : cur.span isBlank = ([], cur) := by
      apply Cursor.span_none
      rw [hc]
      rintro _ ⟨⟩
      exact hsb.1
    have hbreaks := quotedBreaks_separators hs hss hk hf (Cursor.rest_advance_one hc)
      (Nat.lt_of_succ_le hl)
    have hfold : foldBreaks s ss = s :: ss := by
      rw [foldBreaks, if_pos (bne_iff_ne.2 hsb.2)]
    rw [quotedGap, hspan]
    simp only [hc, List.cons_append, List.isEmpty_cons, Bool.false_eq_true, if_false,
      lineBreak?_separator hs hc, hbreaks]
    rw [List.length_cons, Nat.add_comm ss.length, Cursor.advance_add]
    exact congrArg (fun g => Except.ok (g, _)) hfold

/-! ### Whole texts -/

/-- A text that is kept is a word, a gap, and a text after it. -/
theorem Kept.split (h : Kept cs) : ∃ w g cs', cs = w ++ (g ++ cs') ∧ (∀ c ∈ w, IsInner c) ∧
    IsEven g ∧ (g = [] → cs' = []) ∧ ∀ c ∈ cs'.head?, IsInner c := by
  classical
  induction cs with
  | nil => exact ⟨[], [], [], rfl, List.forall_mem_nil _, .inl (List.forall_mem_nil _), fun _ => rfl,
      by rintro _ ⟨⟩⟩
  | cons c cs ih =>
    obtain ⟨w, g, cs', rfl, hw, hg, hn, hf⟩ := ih (h.of_infix (List.infix_cons (List.infix_refl _)))
    by_cases hi : IsInner c
    · exact ⟨c :: w, g, cs', rfl, List.forall_mem_cons.2 ⟨hi, hw⟩, hg, hn, hf⟩
    · have hc : c = ' ' ∨ c ∈ separators := by
        by_contra hne
        rw [not_or] at hne
        exact hi (isInner_of_ne hne.1 hne.2 fun hc => h.unbroken (hc ▸ List.mem_cons_self))
      by_cases hw' : w = []
      · subst hw'
        refine ⟨[], c :: g, cs', rfl, List.forall_mem_nil _, ?_, (fun hc => nomatch hc), hf⟩
        cases g with
        | nil =>
          obtain rfl | hc := hc
          · exact .inl (by simp)
          · exact .inr (by simpa using hc)
        | cons c' g =>
          obtain hg | hg := hg
          · have hc' : c' = ' ' := hg c' List.mem_cons_self
            refine .inl (List.forall_mem_cons.2 ⟨hc.resolve_right fun hc => ?_, hg⟩)
            exact (h.unfolded c hc).2 ⟨[], g ++ cs', by rw [hc']; rfl⟩
          · have hc' : c' ∈ separators := hg c' List.mem_cons_self
            refine .inr (List.forall_mem_cons.2 ⟨hc.resolve_left fun hc => ?_, hg⟩)
            exact (h.unfolded c' hc').1 ⟨[], g ++ cs', by rw [hc]; rfl⟩
      · obtain ⟨c', w', rfl⟩ := List.exists_cons_of_ne_nil hw'
        have hc' := hw c' List.mem_cons_self
        refine ⟨[], [c], (c' :: w') ++ (g ++ cs'), rfl, List.forall_mem_nil _, ?_,
          (fun hc => nomatch hc), ?_⟩
        · obtain rfl | hc := hc
          · exact .inl (by simp)
          · exact .inr (by simpa using hc)
        · rintro _ ⟨⟩
          exact hc'

theorem IsEven.mem {g : List Char} (hg : IsEven g) (hc : c ∈ g) : c = ' ' ∨ c ∈ separators :=
  hg.imp (fun h => h c hc) fun h => h c hc

/-- Texts that are kept are read back. -/
theorem quotedWords_escaped (h : Kept cs) (hc : cur.rest = escaped cs ++ '"' :: rest)
    (hl : cs.length < limit) : quotedWords '"' limit cur =
      .ok (cs.map Char.toNat, cur.advance ((escaped cs).length + 1)) := by
  induction hn : cs.length using Nat.strong_induction_on generalizing cs cur limit with
  | _ n ih =>
    obtain ⟨limit, rfl⟩ := Nat.exists_eq_succ_of_ne_zero (Nat.ne_zero_of_lt hl)
    obtain ⟨w, g, cs', rfl, hw, hg, hnil, hf⟩ := h.split
    rw [List.length_append] at hl
    by_cases hgn : g = []
    · subst hgn
      obtain rfl := hnil rfl
      rw [List.append_nil, List.append_nil] at hc ⊢
      have hword := quotedWord_word hw hc ⟨'"', rest, rfl, .inr (.inr rfl)⟩
        (show w.length ≤ limit by omega)
      have hr : (cur.advance (escaped w).length).rest = '"' :: rest := Cursor.rest_advance_append hc
      have hs : (cur.advance (escaped w).length).startsWith '"' = true := by
        rw [Cursor.startsWith, hr]
        exact BEq.rfl
      rw [quotedWords, hword, Cursor.advance_add]
      simp only [bind, Except.bind, hs, if_true]
      rfl
    · obtain ⟨x, g', rfl⟩ := List.exists_cons_of_ne_nil hgn
      have hx := hg.mem List.mem_cons_self
      have he : escaped (x :: g') = x :: g' := escaped_gap fun c hc => hg.mem hc
      rw [escaped_append, escaped_append, he, List.append_assoc, List.append_assoc] at hc
      have hends : EndsWord ((x :: g') ++ (escaped cs' ++ '"' :: rest)) :=
        ⟨x, _, rfl, hx.imp_right .inl⟩
      have hword := quotedWord_word hw hc hends (show w.length ≤ limit by omega)
      have hr := Cursor.rest_advance_append hc
      have hs : (cur.advance (escaped w).length).startsWith '"' = false := by
        have hq : x ≠ '"' := by
          rintro rfl
          revert hx
          decide
        rw [Cursor.startsWith, hr]
        simp [hq]
      rw [List.length_append] at hl
      have hgap := quotedGap_even hg hgn (h.of_infix (List.suffix_append _ _).isInfix) hf hr
        (show (x :: g').length ≤ limit by omega)
      have hlt : cs'.length < n ∧ cs'.length < limit := by
        rw [← hn, List.length_append, List.length_append]
        rw [List.length_cons] at hl ⊢
        omega
      have hmore := ih cs'.length hlt.1
        (h.of_infix ((List.suffix_append _ _).trans (List.suffix_append _ _)).isInfix)
        (Cursor.rest_advance_append hr) hlt.2 rfl
      rw [quotedWords, hword]
      simp only [bind, Except.bind, hs, Bool.false_eq_true, if_false, hgap, hmore]
      rw [← Cursor.advance_add, ← Cursor.advance_add, escaped_append, escaped_append, he]
      simp only [List.map_append, List.length_append, List.append_assoc, Nat.add_assoc]
      rfl

theorem mapM_char? (cs : List Char) : (cs.map Char.toNat).mapM char? = some cs := by
  induction cs with
  | nil => rfl
  | cons c cs ih =>
    have hc : char? c.toNat = some c := by
      rw [char?]
      exact dif_pos c.valid
    rw [List.map_cons, List.mapM_cons, hc, ih]
    rfl

/-- A text in quotes is read as itself, if it is kept. -/
theorem quotedScalar_textChars {s : String} (h : Kept s.toList)
    (hc : cur.rest = Json.textChars false s ++ rest) (hl : s.length < limit) :
    quotedScalar '"' limit cur =
      .ok (.text s, cur.advance (Json.textChars false s).length) := by
  have hs : cur.step.rest = escaped s.toList ++ '"' :: rest := by
    rw [congrArg Cursor.rest (Cursor.step_of_cons hc)]
    simp [escaped]
  have hlen : (Json.textChars false s).length = 1 + ((escaped s.toList).length + 1) := by
    rw [Json.textChars, List.length_append, List.length_cons, escaped]
    simp only [List.length_singleton]
    omega
  have hstep : cur.advance 1 = cur.step := rfl
  rw [quotedScalar, quotedWords_escaped h hs (by rwa [String.length_toList]), hlen,
    Cursor.advance_add cur 1, hstep]
  simp only [Except.map, Wording.ofCodes, mapM_char?, Wording.ofChars, String.ofList_toList]

/-- What stands in the quotes, and these, end no line. -/
theorem ne_break_of_mem_textChars {s : String} (h : ch ∈ Json.textChars false s) :
    ch ≠ '\n' ∧ ch ≠ '\r' := by
  have hv : 0x20 ≤ ch.toNat := by
    rw [Json.textChars, List.mem_append, List.mem_cons, List.mem_singleton, List.mem_flatMap] at h
    obtain (rfl | ⟨c, -, hc⟩) | rfl := h
    · decide
    · exact (visible_of_mem_escapeChar hc).1
    · decide
  refine ⟨?_, ?_⟩ <;> rintro rfl <;> exact absurd hv (by decide)

end Relief.Yaml
