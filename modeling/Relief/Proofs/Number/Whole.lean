import Mathlib
import Relief.Number.Numeral

/-!
The texts of whole numbers, as a grammar: blanks, a sign, digits of any script with single underscores between
them, and blanks.
-/
namespace Relief.Number

open Text

variable {c : Char} {cs row : List Char} {ds : List Nat} {n : Int} {base : Nat}

/-! ### The grammar -/

/-- The blanks that may stand around a number: all but the separators of files, groups, records and units. -/
def IsPadding (c : Char) : Prop := isBlank c = true ∧ ¬ (0x1C ≤ c.toNat ∧ c.toNat ≤ 0x1F)

/-- Digits with single underscores between them, and their values. -/
inductive DigitRow (value? : Char → Option Nat) : List Char → List Nat → Prop where
  | single {c : Char} {d : Nat} (h : value? c = some d) : DigitRow value? [c] [d]
  | cons {c : Char} {d : Nat} {cs : List Char} {ds : List Nat} (h : value? c = some d)
    (hr : DigitRow value? cs ds) : DigitRow value? (c :: cs) (d :: ds)
  | underscore {c : Char} {d : Nat} {cs : List Char} {ds : List Nat} (h : value? c = some d)
    (hr : DigitRow value? cs ds) : DigitRow value? (c :: '_' :: cs) (d :: ds)

/-- A sign, if there is one, and whether it is a minus. -/
inductive SignMark : List Char → Bool → Prop where
  | none : SignMark [] false
  | plus : SignMark ['+'] false
  | minus : SignMark ['-'] true

/-- The text of a whole number. It has a bounded number of digits. -/
inductive WholeText : List Char → Int → Prop where
  | intro {before mark row after : List Char} {negative : Bool} {ds : List Nat}
    (hb : ∀ c ∈ before, IsPadding c) (hm : SignMark mark negative) (hr : DigitRow digit? row ds)
    (hl : ds.length ≤ 4300) (ha : ∀ c ∈ after, IsPadding c) :
    WholeText (before ++ (mark ++ row) ++ after) (withSign negative (Nat.ofDigits 10 ds.reverse))

/-! ### Characters -/

theorem digit?_of_lt (h : c.toNat < 128) : digit? c = digitIn? 10 c := by
  simp only [digit?, digitIn?, if_pos h]
  split
  · rw [if_pos (by omega)]
  · rw [if_neg]
    split
    · omega
    · split <;> omega

theorem isBlank_iff_of_lt (h : c.toNat < 127) :
    isBlank c = true ↔ (9 ≤ c.toNat ∧ c.toNat ≤ 13) ∨ 28 ≤ c.toNat ∧ c.toNat ≤ 32 := by
  simp only [isBlank, Ranges.contains_iff, blankRanges, List.exists_mem_cons_iff]
  simp only [List.not_mem_nil, false_and, exists_false, or_false]
  omega

theorem isPad_iff : isPad c = true ↔ c.toNat = 32 ∨ 9 ≤ c.toNat ∧ c.toNat ≤ 13 := by
  have hspace : c = ' ' ↔ c.toNat = 32 := Char.toNat_inj.symm
  simp only [isPad, Bool.or_eq_true, beq_iff_eq, Bool.and_eq_true, decide_eq_true_iff, hspace]
  exact Iff.rfl

/-- No blank is a digit. -/
theorem digit?_of_isBlank (h : isBlank c = true) : digit? c = none := by
  have hdisjoint : ∀ r ∈ blankRanges, ∀ z ∈ zeros, r.2 < z ∨ z + 10 ≤ r.1 := by decide
  obtain ⟨r, hr, hlo, hhi⟩ := (Ranges.contains_iff _ _).1 h
  have hnot : ∀ z ∈ zeros, ¬ (z ≤ c.toNat ∧ c.toNat < z + 10) := by
    rintro z hz ⟨h1, h2⟩
    have := hdisjoint r hr z hz
    omega
  simp only [digit?]
  split
  · exact if_neg fun hd => hnot 48 (by decide) (by omega)
  · rw [Option.map_eq_none_iff, List.find?_eq_none]
    simpa using hnot

/-- A character beyond ASCII is seen as a space, a digit or a question mark. -/
theorem plainChar_cases (h : ¬ c.toNat < 127) :
    (isBlank c = true ∧ plainChar c = ' ') ∨
    (∃ d < 10, isBlank c = false ∧ digit? c = some d ∧ plainChar c = Char.ofNat (48 + d)) ∨
    (isBlank c = false ∧ digit? c = none ∧ plainChar c = '?') := by
  rw [plainChar, if_neg h]
  by_cases hb : isBlank c = true
  · rw [if_pos hb]
    exact .inl ⟨hb, rfl⟩
  · rw [if_neg hb]
    cases hd : digit? c with
    | none => exact .inr (.inr ⟨Bool.eq_false_iff.2 hb, rfl, rfl⟩)
    | some d => exact .inr (.inl ⟨d, digit?_lt hd, Bool.eq_false_iff.2 hb, rfl, rfl⟩)

theorem digitIn?_plainChar (c : Char) : digitIn? 10 (plainChar c) = digit? c := by
  by_cases h : c.toNat < 127
  · rw [plainChar, if_pos h, digit?_of_lt (by omega)]
  · obtain ⟨hb, hp⟩ | ⟨d, hlt, -, hd, hp⟩ | ⟨-, hd, hp⟩ := plainChar_cases h
    · rw [hp, digit?_of_isBlank hb]
      rfl
    · rw [hp, hd]
      interval_cases d <;> rfl
    · rw [hp, hd]
      rfl

theorem isPad_plainChar (c : Char) : isPad (plainChar c) = true ↔ IsPadding c := by
  by_cases h : c.toNat < 127
  · rw [plainChar, if_pos h, isPad_iff, IsPadding, isBlank_iff_of_lt h]
    omega
  · obtain ⟨hb, hp⟩ | ⟨d, hlt, hb, -, hp⟩ | ⟨hb, -, hp⟩ := plainChar_cases h
    · rw [hp]
      exact iff_of_true rfl ⟨hb, by omega⟩
    · rw [hp, IsPadding, hb]
      refine iff_of_false ?_ fun h => Bool.false_ne_true h.1
      interval_cases d <;> decide
    · rw [hp, IsPadding, hb]
      exact iff_of_false (by decide) fun h => Bool.false_ne_true h.1

/-- Only itself is seen as a mark. -/
theorem plainChar_eq_iff {m : Char} (h : m.toNat < 127) (hp : isPad m = false)
    (hd : digitIn? 10 m = none) (hq : m ≠ '?') : plainChar c = m ↔ c = m := by
  by_cases hc : c.toNat < 127
  · rw [plainChar, if_pos hc]
  · refine iff_of_false (fun he => ?_) (by rintro rfl; exact hc h)
    obtain ⟨-, hs⟩ | ⟨d, -, -, hv, -⟩ | ⟨-, -, hs⟩ := plainChar_cases hc
    · rw [← he, hs] at hp
      cases hp
    · rw [← he, digitIn?_plainChar, hv] at hd
      cases hd
    · exact hq (he.symm.trans hs)

theorem plainChar_eq_underscore : plainChar c = '_' ↔ c = '_' :=
  plainChar_eq_iff (by decide) (by decide) (by decide) (by decide)

theorem plainChar_eq_plus : plainChar c = '+' ↔ c = '+' :=
  plainChar_eq_iff (by decide) (by decide) (by decide) (by decide)

theorem plainChar_eq_minus : plainChar c = '-' ↔ c = '-' :=
  plainChar_eq_iff (by decide) (by decide) (by decide) (by decide)

/-! ### Digits -/

section Rows

variable {value? : Char → Option Nat}

theorem DigitRow.exists_cons (h : DigitRow value? row ds) :
    ∃ c cs d ds', row = c :: cs ∧ ds = d :: ds' ∧ value? c = some d := by
  cases h with
  | single h => exact ⟨_, _, _, _, rfl, rfl, h⟩
  | cons h => exact ⟨_, _, _, _, rfl, rfl, h⟩
  | underscore h => exact ⟨_, _, _, _, rfl, rfl, h⟩

theorem DigitRow.exists_concat (h : DigitRow value? row ds) :
    ∃ cs c d, row = cs ++ [c] ∧ value? c = some d := by
  induction h with
  | @single c d h => exact ⟨[], c, d, rfl, h⟩
  | @cons c _ _ _ _ _ ih =>
    obtain ⟨cs, e, d, rfl, hd⟩ := ih
    exact ⟨c :: cs, e, d, rfl, hd⟩
  | @underscore c _ _ _ _ _ ih =>
    obtain ⟨cs, e, d, rfl, hd⟩ := ih
    exact ⟨c :: '_' :: cs, e, d, rfl, hd⟩

theorem DigitRow.mem (h : DigitRow value? row ds) (hc : c ∈ row) : c = '_' ∨ ∃ d, value? c = some d := by
  induction h with
  | single h =>
    rw [List.mem_singleton.1 hc]
    exact .inr ⟨_, h⟩
  | cons h _ ih =>
    obtain rfl | hc := List.mem_cons.1 hc
    · exact .inr ⟨_, h⟩
    · exact ih hc
  | underscore h _ ih =>
    obtain rfl | hc := List.mem_cons.1 hc
    · exact .inr ⟨_, h⟩
    · obtain rfl | hc := List.mem_cons.1 hc
      · exact .inl rfl
      · exact ih hc

end Rows

theorem digitIn?_underscore (base : Nat) : digitIn? base '_' = none := if_neg (Nat.lt_irrefl base)

theorem digitRun_eq_nil {rest : List Char} (h : digitRun base cs = ([], rest)) : rest = cs := by
  fun_induction digitRun base cs with
  | case1 => cases h; rfl
  | case2 => cases h
  | case3 => cases h
  | case4 => cases h; rfl
  | case5 => cases h
  | case6 => cases h; rfl

/-- What is read to its end is a row of digits. -/
theorem digitRow_of_digitRun (h : digitRun base cs = (ds, [])) (hn : ds ≠ []) :
    DigitRow (digitIn? base) cs ds := by
  fun_induction digitRun base cs generalizing ds with
  | case1 =>
    cases h
    exact absurd rfl hn
  | case2 c e rest d _ he hd ds' rest' hr ih =>
    cases h
    refine .underscore hd (ih hr ?_)
    rintro rfl
    cases digitRun_eq_nil hr
  | case3 => cases h
  | case4 => cases h
  | case5 c cs _ d hd ds' rest' hr ih =>
    cases h
    by_cases hn : ds' = []
    · subst hn
      cases digitRun_eq_nil hr
      exact .single hd
    · exact .cons hd (ih hr hn)
  | case6 => cases h

theorem digitRun_of_digitRow (h : DigitRow (digitIn? base) cs ds) : digitRun base cs = (ds, []) := by
  induction h with
  | single h => rw [digitRun.eq_3 _ _ _ (fun _ _ he => List.cons_ne_nil _ _ he.symm), h, digitRun]
  | cons h hr ih =>
    obtain ⟨e, rest, d, ds', rfl, -, he⟩ := hr.exists_cons
    have hne : ∀ x r, e :: rest = '_' :: x :: r → False := by
      rintro x r hx
      rw [(List.cons.inj hx).1, digitIn?_underscore] at he
      cases he
    rw [digitRun.eq_3 _ _ _ hne, h, ih]
  | underscore h hr ih =>
    obtain ⟨e, rest, d, ds', rfl, -, he⟩ := hr.exists_cons
    rw [digitRun, h, he, ih]

/-- Rows are seen as rows. -/
theorem digitRow_map_plainChar :
    DigitRow (digitIn? 10) (row.map plainChar) ds ↔ DigitRow digit? row ds := by
  constructor
  · intro h
    generalize hw : row.map plainChar = w at h
    induction h generalizing row with
    | single h =>
      obtain ⟨c, rfl, rfl⟩ := List.map_eq_singleton_iff.1 hw
      exact .single (digitIn?_plainChar c ▸ h)
    | cons h _ ih =>
      obtain ⟨c, cs, rfl, rfl, hcs⟩ := List.map_eq_cons_iff.1 hw
      exact .cons (digitIn?_plainChar c ▸ h) (ih hcs)
    | underscore h _ ih =>
      obtain ⟨c, cs, rfl, rfl, hcs⟩ := List.map_eq_cons_iff.1 hw
      obtain ⟨u, cs, rfl, hu, hcs⟩ := List.map_eq_cons_iff.1 hcs
      rw [plainChar_eq_underscore.1 hu]
      exact .underscore (digitIn?_plainChar c ▸ h) (ih hcs)
  · intro h
    induction h with
    | single h => exact .single ((digitIn?_plainChar _).trans h)
    | cons h _ ih => exact .cons ((digitIn?_plainChar _).trans h) ih
    | underscore h _ ih => exact .underscore ((digitIn?_plainChar _).trans h) ih

theorem digitsIn_eq_ofDigits (ds : List Nat) : digitsIn 10 ds = Nat.ofDigits 10 ds.reverse := by
  rw [digitsIn, Nat.ofDigits_eq_foldr, List.foldr_reverse]
  simp only [Nat.cast_id, Nat.add_comm]

/-! ### Blanks and signs -/

theorem plain_eq (s : String) :
    plain s = (((s.toList.dropWhile (isPad ∘ plainChar)).reverse.dropWhile
      (isPad ∘ plainChar)).reverse).map plainChar := by
  rw [plain, List.dropWhile_map, ← List.map_reverse, List.dropWhile_map, ← List.map_reverse]

/-- A text is what is left of it between blanks. -/
theorem exists_plain (cs : List Char) : ∃ before mid after, cs = before ++ mid ++ after ∧
    (∀ c ∈ before, IsPadding c) ∧ (∀ c ∈ after, IsPadding c) ∧
    plain (String.ofList cs) = mid.map plainChar := by
  let p := isPad ∘ plainChar
  have hpad : ∀ l : List Char, ∀ c ∈ l.takeWhile p, IsPadding c := fun l c hc =>
    (isPad_plainChar c).1 (List.mem_takeWhile_imp (p := p) hc)
  have hback := (cs.dropWhile p).reverse.takeWhile_append_dropWhile (p := p)
  refine ⟨cs.takeWhile p, ((cs.dropWhile p).reverse.dropWhile p).reverse,
    ((cs.dropWhile p).reverse.takeWhile p).reverse, ?_, hpad cs, fun c hc => ?_, ?_⟩
  · rw [List.append_assoc, ← List.reverse_append, hback, List.reverse_reverse,
      List.takeWhile_append_dropWhile]
  · exact hpad _ c (List.mem_reverse.1 hc)
  · rw [plain_eq, String.toList_ofList]

theorem dropWhile_padding {before mid : List Char} (hb : ∀ c ∈ before, IsPadding c)
    (hm : ∀ c ∈ mid.head?, ¬ IsPadding c) :
    (before ++ mid).dropWhile (isPad ∘ plainChar) = mid := by
  have hpad : ∀ c ∈ before, (isPad ∘ plainChar) c = true := fun c hc => (isPad_plainChar c).2 (hb c hc)
  rw [List.dropWhile_append_of_pos hpad]
  cases mid with
  | nil => rfl
  | cons c cs => exact List.dropWhile_cons_of_neg fun h => hm c rfl ((isPad_plainChar c).1 h)

/-- Blanks are dropped up to characters that are none. -/
theorem plain_append {before mid after : List Char} (hb : ∀ c ∈ before, IsPadding c)
    (ha : ∀ c ∈ after, IsPadding c) (hn : mid ≠ []) (hfirst : ∀ c ∈ mid.head?, ¬ IsPadding c)
    (hlast : ∀ c ∈ mid.getLast?, ¬ IsPadding c) :
    plain (String.ofList (before ++ mid ++ after)) = mid.map plainChar := by
  have hfront : ∀ c ∈ (mid ++ after).head?, ¬ IsPadding c := by
    rwa [List.head?_append_of_ne_nil _ hn]
  have hback : ∀ c ∈ mid.reverse.head?, ¬ IsPadding c := by
    rwa [List.head?_reverse]
  rw [plain_eq, String.toList_ofList, List.append_assoc, dropWhile_padding hb hfront,
    List.reverse_append, dropWhile_padding (fun c hc => ha c (List.mem_reverse.1 hc)) hback,
    List.reverse_reverse]

theorem not_isPadding_of_digit {d : Nat} (h : digit? c = some d) : ¬ IsPadding c := by
  rintro ⟨hb, -⟩
  rw [digit?_of_isBlank hb] at h
  cases h

/-- A sign and digits are neither preceded nor followed by blanks of their own. -/
theorem plain_of_row {before mark after : List Char} {negative : Bool}
    (hb : ∀ c ∈ before, IsPadding c) (ha : ∀ c ∈ after, IsPadding c) (hm : SignMark mark negative)
    (hr : DigitRow digit? row ds) :
    plain (String.ofList (before ++ (mark ++ row) ++ after)) = (mark ++ row).map plainChar := by
  obtain ⟨init, e, v, he, hv⟩ := hr.exists_concat
  obtain ⟨c, cs, d, -, hcs, -, hd⟩ := hr.exists_cons
  have hn : mark ++ row ≠ [] := by simp [hcs]
  refine plain_append hb ha hn (fun x hx => ?_) fun x hx => ?_
  · cases hm with
    | none =>
      rw [hcs] at hx
      cases hx
      exact not_isPadding_of_digit hd
    | plus =>
      cases hx
      exact (isPad_plainChar '+').not.1 (by decide)
    | minus =>
      cases hx
      exact (isPad_plainChar '-').not.1 (by decide)
  · rw [he, ← List.append_assoc, List.getLast?_concat] at hx
    cases hx
    exact not_isPadding_of_digit hv

theorem signed_of_row {mark : List Char} {negative : Bool} (hm : SignMark mark negative)
    (hr : DigitRow digit? row ds) :
    signed ((mark ++ row).map plainChar) = (negative, row.map plainChar) := by
  cases hm with
  | none =>
    obtain ⟨c, cs, d, -, rfl, -, hd⟩ := hr.exists_cons
    have hne : ∀ m, digit? m = none → c ≠ m := by
      rintro m hm rfl
      rw [hm] at hd
      cases hd
    rw [List.nil_append, List.map_cons, signed.eq_3]
    · rintro rest he
      exact hne '-' (by decide) (plainChar_eq_minus.1 (List.cons.inj he).1)
    · rintro rest he
      exact hne '+' (by decide) (plainChar_eq_plus.1 (List.cons.inj he).1)
  | plus => rfl
  | minus => rfl

/-- A sign is seen only where one is. -/
theorem exists_signMark (mid : List Char) : ∃ mark rest, mid = mark ++ rest ∧
    SignMark mark (signed (mid.map plainChar)).1 ∧ (signed (mid.map plainChar)).2 = rest.map plainChar := by
  cases mid with
  | nil => exact ⟨[], [], rfl, .none, rfl⟩
  | cons c cs =>
    by_cases hm : c = '-'
    · subst hm
      exact ⟨['-'], cs, rfl, .minus, rfl⟩
    · by_cases hp : c = '+'
      · subst hp
        exact ⟨['+'], cs, rfl, .plus, rfl⟩
      · have hs : signed ((c :: cs).map plainChar) = (false, (c :: cs).map plainChar) := by
          rw [List.map_cons, signed.eq_3]
          · exact fun _ he => hm (plainChar_eq_minus.1 (List.cons.inj he).1)
          · exact fun _ he => hp (plainChar_eq_plus.1 (List.cons.inj he).1)
        rw [hs]
        exact ⟨[], c :: cs, rfl, .none, rfl⟩

/-! ### Whole numbers -/

theorem signedDigits?_eq_some_iff {s : String} {negative : Bool} :
    signedDigits? 10 s = some (negative, ds) ↔
      (signed (plain s)).1 = negative ∧ digitRun 10 (signed (plain s)).2 = (ds, []) ∧ ds ≠ [] := by
  rw [signedDigits?]
  rcases signed (plain s) with ⟨sign, cs⟩
  dsimp only
  constructor
  · intro h
    split at h
    · next d ds' hrun =>
      cases h
      exact ⟨rfl, hrun, List.cons_ne_nil _ _⟩
    · cases h
  · rintro ⟨rfl, hrun, hn⟩
    obtain ⟨d, ds, rfl⟩ := List.exists_cons_of_ne_nil hn
    rw [hrun]

/-- Digits are read with their sign unless they are too many. -/
theorem readInt?_of_row {before mark after : List Char} {negative : Bool}
    (hb : ∀ c ∈ before, IsPadding c) (ha : ∀ c ∈ after, IsPadding c) (hm : SignMark mark negative)
    (hr : DigitRow digit? row ds) :
    readInt? (String.ofList (before ++ (mark ++ row) ++ after)) =
      if ds.length ≤ 4300 then some (withSign negative (Nat.ofDigits 10 ds.reverse)) else none := by
  have hd : signedDigits? 10 (String.ofList (before ++ (mark ++ row) ++ after)) =
      some (negative, ds) := by
    obtain ⟨c, cs, d, ds', -, rfl, -⟩ := hr.exists_cons
    rw [signedDigits?_eq_some_iff, plain_of_row hb ha hm hr, signed_of_row hm hr]
    exact ⟨rfl, digitRun_of_digitRow (digitRow_map_plainChar.2 hr), List.cons_ne_nil _ _⟩
  rw [readInt?, hd]
  dsimp only
  rw [digitsIn_eq_ofDigits]
  rfl

/-- A text is read as a whole number exactly if it is the text of one. -/
theorem readInt?_eq_some_iff : readInt? (String.ofList cs) = some n ↔ WholeText cs n := by
  constructor
  · intro h
    rw [readInt?] at h
    split at h
    · next negative ds hd =>
      rw [Option.ite_none_right_eq_some] at h
      obtain ⟨hl, hv⟩ := h
      cases hv
      obtain ⟨before, mid, after, rfl, hb, ha, hp⟩ := exists_plain cs
      obtain ⟨hs, hrun, hn⟩ := signedDigits?_eq_some_iff.1 hd
      obtain ⟨mark, row, rfl, hm, hrow⟩ := exists_signMark mid
      rw [hp] at hs hrun
      rw [hs] at hm
      rw [hrow] at hrun
      rw [digitsIn_eq_ofDigits]
      exact .intro hb hm (digitRow_map_plainChar.1 (digitRow_of_digitRun hrun hn)) hl ha
    · cases h
  · rintro ⟨hb, hm, hr, hl, ha⟩
    rw [readInt?_of_row hb ha hm hr, if_pos hl]

/-- No point is part of a whole number. -/
theorem WholeText.dot_not_mem (h : WholeText cs n) : '.' ∉ cs := by
  have hpad : ¬ IsPadding '.' := (isPad_plainChar '.').not.1 (by decide)
  cases h with
  | intro hb hm hr _ ha =>
    simp only [List.mem_append, not_or]
    refine ⟨⟨fun hc => hpad (hb _ hc), ⟨?_, ?_⟩⟩, fun hc => hpad (ha _ hc)⟩
    · cases hm <;> decide
    · intro hc
      obtain hc | ⟨d, hd⟩ := hr.mem hc
      · cases hc
      · cases hd

end Relief.Number
