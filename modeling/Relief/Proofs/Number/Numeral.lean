import Mathlib
import Relief.Number.Numeral
import Relief.Proofs.Number.Fields
import Relief.Proofs.Number.Layout

/-!
Printed numbers are read as the decimals that they spell, and so finite doubles in their shortest digits
are read as themselves.
-/
namespace Relief.Number

variable {ds fs w rest : List Char} {c : Char} {d : Decimal} {v : Float} {l : Layout}

/-! ### Characters of printed numbers -/

section Marks

variable {P : Char → Prop}

/-- What holds of digits, point, sign and exponent mark holds all over a printed number. -/
theorem Printed.forall_mem (h : Printed w d) (hd : ∀ c : Char, c.isDigit = true → P c)
    (hp : P '.') (he : P 'e') (hm : P '-') (ha : P '+') : ∀ c ∈ w, P c := by
  cases h with
  | intro _ hds hf hx =>
    simp only [List.mem_append]
    rintro c ((hc | hc) | hc)
    · exact hd c (hds c hc)
    · cases hf with
      | none => cases hc
      | point hfs =>
        obtain rfl | hc := List.mem_cons.1 hc
        · exact hp
        · exact hd c (hfs c hc)
    · cases hx with
      | none => cases hc
      | signed _ hxs =>
        obtain rfl | hc := List.mem_cons.1 hc
        · exact he
        · obtain rfl | hc := List.mem_cons.1 hc
          · split
            · exact hm
            · exact ha
          · exact hd c (hxs c hc)

theorem Printed.exists_cons (h : Printed w d) : ∃ c cs, w = c :: cs ∧ c.isDigit = true := by
  cases h with
  | intro hn hds =>
    obtain ⟨c, cs, rfl⟩ := List.exists_cons_of_ne_nil hn
    exact ⟨c, _, rfl, hds c List.mem_cons_self⟩

theorem Printed.ne_nil (h : Printed w d) : w ≠ [] := by
  obtain ⟨c, cs, rfl, -⟩ := h.exists_cons
  exact List.cons_ne_nil c cs

end Marks

/-! ### Digits -/

/-- The digits of a row do not go on. -/
def EndsRun (rest : List Char) : Prop :=
  ∀ c ∈ rest.head?, c.isDigit = false ∧ c ≠ '_'

theorem isDigit_iff : c.isDigit = true ↔ 48 ≤ c.toNat ∧ c.toNat ≤ 57 :=
  Char.isDigit_iff_toNat

theorem digitIn?_of_isDigit (h : c.isDigit = true) : digitIn? 10 c = some (c.toNat - 48) := by
  have h := isDigit_iff.1 h
  simp only [digitIn?, h, and_self, if_true]
  rw [if_pos (by omega)]

theorem digitIn?_eq_none (h : c.isDigit = false) : digitIn? 10 c = none := by
  have hn : ¬ (48 ≤ c.toNat ∧ c.toNat ≤ 57) := by
    rw [← isDigit_iff, h]
    exact Bool.false_ne_true
  simp only [digitIn?, hn, if_false]
  rw [if_neg]
  split
  · omega
  · split <;> omega

theorem digitRun_cons_digit (h : c.isDigit = true) (hr : rest.head? ≠ some '_') :
    digitRun 10 (c :: rest) = ((c.toNat - 48) :: (digitRun 10 rest).1, (digitRun 10 rest).2) := by
  rw [digitRun.eq_3 10 c rest (by rintro e r rfl; exact hr rfl), digitIn?_of_isDigit h]

theorem digitRun_of_endsRun (h : EndsRun rest) : digitRun 10 rest = ([], rest) := by
  cases rest with
  | nil => rfl
  | cons c rest =>
    have hc := digitIn?_eq_none (h c rfl).1
    rw [digitRun.eq_def]
    split
    · next he => cases he
    · next he =>
      obtain ⟨rfl, rfl⟩ := List.cons.inj he
      rw [hc]
    · next he =>
      obtain ⟨rfl, rfl⟩ := List.cons.inj he
      rw [hc]

/-- A row of digits is read to its end. -/
theorem digitRun_append (h : PlainDigits ds) (hr : EndsRun rest) :
    digitRun 10 (ds ++ rest) = (ds.map (·.toNat - 48), rest) := by
  induction ds with
  | nil => exact digitRun_of_endsRun hr
  | cons c ds ih =>
    obtain ⟨hc, hds⟩ := List.forall_mem_cons.1 h
    have hn : (ds ++ rest).head? ≠ some '_' := by
      cases ds with
      | nil => exact fun he => (hr '_' he).2 rfl
      | cons e ds =>
        rintro ⟨⟩
        exact absurd (hds '_' List.mem_cons_self) (by decide)
    rw [List.cons_append, digitRun_cons_digit hc hn, ih hds, List.map_cons]

theorem digitRun_digits (h : PlainDigits ds) : digitRun 10 ds = (ds.map (·.toNat - 48), []) := by
  have hn : EndsRun [] := by rintro _ ⟨⟩
  have hr := digitRun_append h hn
  rwa [List.append_nil] at hr

theorem digitsIn_digits (ds : List Char) :
    digitsIn 10 (ds.map (·.toNat - 48)) = Nat.ofDigitChars 10 ds 0 := by
  rw [digitsIn, List.foldl_map]
  rfl

/-! ### Decimals -/

theorem PrintedExponent.endsRun {x : List Char} {e : Int} (h : PrintedExponent x e) : EndsRun x := by
  cases h with
  | none => rintro _ ⟨⟩
  | signed =>
    rintro _ ⟨⟩
    decide

theorem signed_sign (e : Int) (cs : List Char) :
    signed ((if e < 0 then '-' else '+') :: cs) = (decide (e < 0), cs) := by
  by_cases he : e < 0
  · rw [if_pos he, decide_eq_true he]
    rfl
  · rw [if_neg he, decide_eq_false he]
    rfl

theorem withSign_natAbs (e : Int) : withSign (decide (e < 0)) e.natAbs = e := by
  rw [withSign]
  split
  · next h => rw [decide_eq_true_iff] at h; omega
  · next h => rw [decide_eq_true_iff] at h; omega

theorem exponentPart?_of_printed {x : List Char} {e : Int} (h : PrintedExponent x e) :
    exponentPart? x = some e := by
  cases h with
  | none => rfl
  | @signed e xs hn hp hv =>
    have hd : digitsIn 10 (xs.map (·.toNat - 48)) = e.natAbs := by rw [digitsIn_digits, hv]
    rw [exponentPart?, if_pos (by decide), signed_sign]
    dsimp only
    rw [digitRun_digits hp]
    obtain ⟨c, cs, rfl⟩ := List.exists_cons_of_ne_nil hn
    rw [List.map_cons] at hd ⊢
    exact congrArg some ((congrArg (withSign _) hd).trans (withSign_natAbs e))

theorem decimalPart?_whole {whole : List Nat} (h : digitRun 10 w = (whole, rest))
    (hn : whole ≠ []) (hr : rest.head? ≠ some '.') :
    decimalPart? w = (exponentPart? rest).map fun e => ⟨digitsIn 10 whole, e⟩ := by
  simp only [decimalPart?, h]
  cases rest with
  | nil => simp [hn]
  | cons c rest =>
    have hc : c ≠ '.' := fun hc => hr (congrArg some hc)
    simp [hn, hc]

theorem decimalPart?_point {whole fraction : List Nat} {r : List Char}
    (h : digitRun 10 w = (whole, '.' :: r)) (hn : whole ≠ [])
    (hr : digitRun 10 r = (fraction, rest)) :
    decimalPart? w = (exponentPart? rest).map fun e =>
      ⟨digitsIn 10 (whole ++ fraction), e - fraction.length⟩ := by
  simp only [decimalPart?, h, hr]
  simp [hn]

theorem decimalPart?_of_printed (h : Printed w d) : decimalPart? w = some d := by
  cases h with
  | @intro ds f fs x e hn hd hf hx =>
    have hcons : ds.map (·.toNat - 48) ≠ [] := by simpa using hn
    cases hf with
    | none =>
      have hp : x.head? ≠ some '.' := by
        cases hx with
        | none => rintro ⟨⟩
        | signed =>
          rintro ⟨⟩
      rw [List.append_nil, decimalPart?_whole (digitRun_append hd hx.endsRun) hcons hp,
        exponentPart?_of_printed hx, Option.map_some, digitsIn_digits]
      simp
    | point hfs =>
      have hp : EndsRun ('.' :: (fs ++ x)) := by
        rintro _ ⟨⟩
        decide
      rw [List.append_assoc, List.cons_append, decimalPart?_point (digitRun_append hd hp) hcons
        (digitRun_append hfs hx.endsRun), exponentPart?_of_printed hx, Option.map_some,
        ← List.map_append, digitsIn_digits, List.length_map]

/-! ### Doubles -/

theorem plainChar_eq_self (h : c.toNat < 127) : plainChar c = c := if_pos h

theorem isPad_eq_false (h : 32 < c.toNat) : isPad c = false := by
  have h1 : c ≠ ' ' := by
    rintro rfl
    exact absurd h (by decide)
  have h2 : ¬ c ≤ '\r' := fun hc => absurd (show c.toNat ≤ 13 from hc) (by omega)
  simp [isPad, h1, h2]

/-- Nothing is cut off from visible characters. -/
theorem plain_of_visible (h : ∀ c ∈ w, 32 < c.toNat ∧ c.toNat < 127) :
    plain (String.ofList w) = w := by
  have hm : w.map plainChar = w := by
    conv_rhs => rw [← List.map_id w]
    exact List.map_congr_left fun c hc => plainChar_eq_self (h c hc).2
  have hd : ∀ {cs : List Char}, (∀ c ∈ cs, c ∈ w) → cs.dropWhile isPad = cs := by
    intro cs hcs
    cases cs with
    | nil => rfl
    | cons c cs =>
      rw [List.dropWhile_cons_of_neg]
      rw [isPad_eq_false (h c (hcs c List.mem_cons_self)).1]
      exact Bool.false_ne_true
  simp only [plain, String.toList_ofList, hm]
  rw [hd fun c hc => hc, hd fun c hc => List.mem_reverse.1 hc, List.reverse_reverse]

theorem signed_of_digit {cs : List Char} (h : c.isDigit = true) :
    signed (c :: cs) = (false, c :: cs) := by
  unfold signed
  split
  · next he =>
    obtain ⟨rfl, -⟩ := List.cons.inj he
    exact absurd h (by decide)
  · next he =>
    obtain ⟨rfl, -⟩ := List.cons.inj he
    exact absurd h (by decide)
  · rfl

theorem namedFloat?_of_digit {cs : List Char} (negative : Bool) (h : c.isDigit = true) :
    namedFloat? negative (c :: cs) = none := by
  have hl : c.toLower = c := by
    have := isDigit_iff.1 h
    rw [Char.toLower, dif_neg]
    rintro ⟨h1, -⟩
    have h1 : 65 ≤ c.toNat := h1
    omega
  have hn : ∀ name : String, (name.toList.head?.all fun c => !c.isDigit) = true →
      lowerAscii (c :: cs) ≠ name := by
    rintro name hname rfl
    rw [lowerAscii, String.toList_ofList, List.map_cons, List.head?_cons, hl] at hname
    simp [h] at hname
  have h1 := hn "inf" (by decide)
  have h2 := hn "infinity" (by decide)
  have h3 := hn "nan" (by decide)
  simp only [namedFloat?, h1, h2, h3, or_self, if_false]

theorem signed_plain_of_printed (h : Printed w d) (negative : Bool) :
    signed (plain (String.ofList (sign negative w))) = (negative, w) := by
  have hv : ∀ c ∈ w, 32 < c.toNat ∧ c.toNat < 127 := by
    refine h.forall_mem (fun c hc => ?_) (by decide) (by decide) (by decide) (by decide)
    have := isDigit_iff.1 hc
    omega
  have hp : plain (String.ofList (sign negative w)) = sign negative w := by
    apply plain_of_visible
    cases negative with
    | false => exact hv
    | true => exact List.forall_mem_cons.2 ⟨by decide, hv⟩
  rw [hp]
  cases negative with
  | false =>
    obtain ⟨c, cs, rfl, hc⟩ := h.exists_cons
    exact signed_of_digit hc
  | true => rfl

/-- A printed number is read as the decimal that it spells, with its sign. -/
theorem readFloat?_of_printed (h : Printed w d) (negative : Bool) :
    readFloat? (String.ofList (sign negative w)) = some (d.toFloat negative) := by
  have hn : namedFloat? negative w = none := by
    obtain ⟨c, cs, rfl, hc⟩ := h.exists_cons
    exact namedFloat?_of_digit negative hc
  rw [readFloat?, signed_plain_of_printed h]
  simp only [hn, decimalPart?_of_printed h, Option.map_some]

/-! ### Signs -/

theorem ofWord_sign {n : Nat} (h : n < 2 ^ 63) :
    Binary64.ofWord (2 ^ 63 + n) = (Binary64.ofWord n).neg := by
  have hx : (2 ^ 63 + n) / 2 ^ 52 % 2 ^ 11 = n / 2 ^ 52 % 2 ^ 11 := by omega
  have hf : (2 ^ 63 + n) % 2 ^ 52 = n % 2 ^ 52 := by omega
  have hs : decide (2 ^ 63 ≤ 2 ^ 63 + n) = true := decide_eq_true (Nat.le_add_right _ _)
  have hs' : decide (2 ^ 63 ≤ n) = false := decide_eq_false (Nat.not_le.2 h)
  simp only [Binary64.ofWord, Nat.pow_eq, hx, hf, hs, hs']
  split
  · split <;> rfl
  · split <;> rfl

theorem Ratio.toFloat_true (r : Ratio) : r.toFloat true = -r.toFloat false := by
  have hw := r.toWord_le
  have hlt : r.toWord < 2 ^ 63 := by omega
  have h1 : (2 ^ 63 + r.toWord).toUInt64.toNat = 2 ^ 63 + r.toWord :=
    UInt64.toNat_ofNat_of_lt' (by change _ < 2 ^ 64; omega)
  have h2 : r.toWord.toUInt64.toNat = r.toWord :=
    UInt64.toNat_ofNat_of_lt' (by change _ < 2 ^ 64; omega)
  apply ofFloat_inj
  rw [ofFloat_neg, toFloat, toFloat, ofFloat_ofBits, ofFloat_ofBits, if_pos rfl,
    if_neg Bool.false_ne_true, Nat.zero_add, Nat.pow_eq, h1, h2, ofWord_sign hlt]

theorem Decimal.toFloat_true (d : Decimal) : d.toFloat true = -d.toFloat false := by
  unfold toFloat
  split
  · exact Ratio.toFloat_true _
  · split
    · exact Ratio.toFloat_true _
    · split
      · exact Ratio.toFloat_true _
      · exact Ratio.toFloat_true _

theorem Binary64.neg_neg (b : Binary64) : b.neg.neg = b := by
  cases b with
  | nan => rfl
  | infinite s => cases s <;> rfl
  | finite s => cases s <;> rfl

theorem float_neg_neg (v : Float) : -(-v) = v := by
  apply ofFloat_inj
  rw [ofFloat_neg, ofFloat_neg, Binary64.neg_neg]

theorem exists_finite (h : v.isFinite = true) : ∃ s m e, Binary64.ofFloat v = .finite s m e := by
  change (fields v).isFinite = true at h
  rw [fields_eq_unpacked] at h
  cases hv : Binary64.ofFloat v with
  | finite s m e => exact ⟨s, m, e, rfl⟩
  | nan =>
    rw [hv] at h
    cases h
  | infinite =>
    rw [hv] at h
    cases h

/-- Every decimal of the value of the shortest one is read as the double, sign and all. -/
theorem toFloat_of_shortest_sign {s : Bool} {m : Nat} {e : Int}
    (hv : Binary64.ofFloat v = .finite s m e) (h : d.value = (shortest m e).value) :
    d.toFloat s = v := by
  cases s with
  | false => exact toFloat_of_shortest hv h
  | true =>
    have hn : Binary64.ofFloat (-v) = .finite false m e := by rw [ofFloat_neg, hv]; rfl
    rw [Decimal.toFloat_true, toFloat_of_shortest hn h, float_neg_neg]

theorem ofFloat_zero : Binary64.ofFloat 0 = .finite false 0 Binary64.minExponent := rfl

theorem ofFloat_negZero : Binary64.ofFloat (-0) = .finite true 0 Binary64.minExponent := rfl

/-- The doubles without a significand are the two zeros. -/
theorem dropZeroSign_eq {s : Bool} {m : Nat} {e : Int} (hv : Binary64.ofFloat v = .finite s m e) :
    dropZeroSign v = if m = 0 then 0 else v := by
  split
  · next hm =>
    subst hm
    have hc := canonical_of_finite hv
    have he : e = Binary64.minExponent := by
      by_contra hne
      have := hc.normal (lt_of_le_of_ne hc.le_exponent (Ne.symm hne))
      omega
    subst he
    cases s with
    | false =>
      rw [ofFloat_inj (hv.trans ofFloat_zero.symm)]
      rfl
    | true =>
      rw [ofFloat_inj (hv.trans ofFloat_negZero.symm)]
      rfl
  · next hm =>
    apply dropZeroSign_eq_self
    rintro rfl
    rw [ofFloat_negZero] at hv
    injection hv with _ h
    exact hm h.symm

theorem beq_zero_iff {s : Bool} {m : Nat} {e : Int} (hv : Binary64.ofFloat v = .finite s m e) :
    (v == 0) = true ↔ m = 0 := by
  have h := dropZeroSign_eq hv
  constructor
  · intro hz
    by_contra hm
    rw [dropZeroSign, if_pos hz, if_neg hm] at h
    rw [← h, ofFloat_zero] at hv
    injection hv with _ h0
    exact hm h0.symm
  · rintro rfl
    rw [if_pos rfl, dropZeroSign] at h
    split at h
    · next hz => exact hz
    · rw [h]
      rfl

theorem lt_zero_iff {s : Bool} {m : Nat} {e : Int} (hv : Binary64.ofFloat v = .finite s m e) :
    v < 0 ↔ s = true ∧ 0 < m := by
  have h0 : fields 0 = .zero .positive := rfl
  rw [lt_iff_compare, h0, fields_eq_unpacked, hv, Binary64.unpacked]
  split
  · next hm => cases s <;> simp [signum, Float.Model.UnpackedFloat.compare, hm]
  · next hm => simp [Float.Model.UnpackedFloat.compare, hm]

theorem decide_lt_zero {s : Bool} {m : Nat} {e : Int} (hv : Binary64.ofFloat v = .finite s m e) :
    decide (v < 0) = (s && m != 0) := by
  rw [Bool.eq_iff_iff, decide_eq_true_iff, lt_zero_iff hv, Bool.and_eq_true, bne_iff_ne,
    Nat.pos_iff_ne_zero]

/-- A finite double in its shortest digits is read as itself, up to the sign of a zero if the layout
leaves that out. -/
theorem readFloat?_print (hl : l.wholeMark = "" ∨ l.wholeMark = ".0") (hv : v.isFinite = true) :
    readFloat? (l.print v) = some (if l.signedZero then v else dropZeroSign v) := by
  obtain ⟨s, m, e, hv⟩ := exists_finite hv
  obtain ⟨d, hd, h⟩ := printed_magnitude hl (shortest m e)
  rw [Layout.print, Layout.printWith, hv]
  dsimp only
  rw [readFloat?_of_printed hd, dropZeroSign_eq hv]
  congr 1
  by_cases hz : l.signedZero = true
  · rw [if_pos hz, hz, Bool.true_or, Bool.and_true, toFloat_of_shortest_sign hv h]
  · rw [if_neg hz, Bool.eq_false_iff.2 hz, Bool.false_or]
    by_cases hm : m = 0
    · subst hm
      rw [if_pos rfl, bne_self_eq_false, Bool.and_false]
      apply Decimal.toFloat_of_zero ofFloat_zero
      rw [h, value_shortest_zero]
    · rw [if_neg hm, bne_iff_ne.2 hm, Bool.and_true, toFloat_of_shortest_sign hv h]

end Relief.Number
