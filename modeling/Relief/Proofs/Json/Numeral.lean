import Mathlib
import Relief.Format.Json
import Relief.Proofs.Number.Numeral
import Relief.Value

/-!
Numbers of JSON: the grammar of their texts, what they stand for, and that every printed number belongs to
the grammar and stands for the number it was printed from.
-/
namespace Relief.Format.Json

open Relief.Number

variable {ds fs f x w : List Char} {e : Int} {v : Float} {places : Nat}

/-! ### The grammar -/

/-- Digits without a needless zero in front. -/
def isWhole : List Char → Bool
  | [] => false
  | [_] => true
  | c :: _ => c != '0'

def isExponent : List Char → Bool
  | [] => true
  | c :: cs =>
    let ds := (signed cs).2
    (c == 'e' || c == 'E') && !ds.isEmpty && ds.all Char.isDigit

/-- A fraction and an exponent, which both may be missing. -/
def isFraction : List Char → Bool
  | '.' :: cs => !(cs.takeWhile Char.isDigit).isEmpty && isExponent (cs.dropWhile Char.isDigit)
  | cs => isExponent cs

def isNumber (cs : List Char) : Bool :=
  let ds := if cs.head? = some '-' then cs.tail else cs
  isWhole (ds.takeWhile Char.isDigit) && isFraction (ds.dropWhile Char.isDigit)

/-- The value of a number. Without a fraction and an exponent it is whole. -/
def number? (cs : List Char) : Option Value :=
  if !isNumber cs then none
  else if cs.all fun c => c.isDigit || c == '-' then
    let (negative, ds) := signed cs
    some (.int (withSign negative (Nat.ofDigitChars 10 ds 0)))
  else (readFloat? (String.ofList cs)).map .float

/-! ### Digits -/

theorem isWhole_of_head (hn : ds ≠ []) (h : ds.head? ≠ some '0') : isWhole ds = true := by
  unfold isWhole
  split
  · exact absurd rfl hn
  · rfl
  · exact bne_iff_ne.2 fun hc => h (congrArg some hc)

theorem head_toDigits {n : Nat} (hn : n ≠ 0) : (Nat.toDigits 10 n).head? ≠ some '0' := by
  induction n using Nat.strong_induction_on with
  | _ n ih =>
    by_cases h : n < 10
    · rw [Nat.toDigits_of_lt_base h]
      interval_cases n <;> first | exact absurd rfl hn | decide
    · rw [Nat.toDigits_of_base_le (by decide) (Nat.le_of_not_lt h),
        List.head?_append_of_ne_nil _ Nat.toDigits_ne_nil]
      exact ih (n / 10) (by omega) (by omega)

theorem isWhole_toDigits (n : Nat) : isWhole (Nat.toDigits 10 n) = true := by
  by_cases h : n = 0
  · subst h
    rfl
  · exact isWhole_of_head Nat.toDigits_ne_nil (head_toDigits h)

theorem isWhole_take {k : Nat} (hk : 0 < k) (h : isWhole ds = true) :
    isWhole (ds.take k) = true := by
  obtain ⟨k, rfl⟩ := Nat.exists_eq_succ_of_ne_zero hk.ne'
  match ds, h with
  | [_], _ => rw [List.take_succ_cons, List.take_nil, isWhole]
  | c :: d :: ds, h =>
    refine isWhole_of_head (List.cons_ne_nil _ _) fun hc => ?_
    rw [List.take_succ_cons, List.head?_cons, Option.some.injEq] at hc
    exact bne_iff_ne.1 h hc

/-! ### Texts of the grammar -/

/-- A point with digits behind it, or nothing. -/
inductive IsFraction : List Char → Prop where
  | none : IsFraction []
  | point {fs : List Char} : fs ≠ [] → PlainDigits fs → IsFraction ('.' :: fs)

theorem isDigit_head_exponent (h : PrintedExponent x e) : ∀ c ∈ x.head?, c.isDigit = false :=
  fun c hc => (h.endsRun c hc).1

/-- Characters of one kind end where one of another kind follows. -/
theorem takeWhile_append {p : Char → Bool} (hw : ∀ c ∈ w, p c = true) (hx : ∀ c ∈ x.head?, p c = false) :
    (w ++ x).takeWhile p = w ∧ (w ++ x).dropWhile p = x := by
  rw [List.takeWhile_append_of_pos hw, List.dropWhile_append_of_pos hw]
  cases x with
  | nil => simp
  | cons c x =>
    have hc := hx c rfl
    rw [List.takeWhile_cons_of_neg (by simp [hc]), List.dropWhile_cons_of_neg (by simp [hc])]
    simp

theorem isExponent_of_printed (h : PrintedExponent x e) : isExponent x = true := by
  cases h with
  | none => rfl
  | signed hn hx =>
    have hall := List.all_eq_true.2 hx
    rw [isExponent, signed_sign]
    simp [hn, hall]

theorem isFraction_append (hf : IsFraction f) (hx : PrintedExponent x e) :
    isFraction (f ++ x) = true := by
  have hexp := isExponent_of_printed hx
  cases hf with
  | none =>
    cases hx with
    | none => rfl
    | signed => exact hexp
  | point hn hfs =>
    obtain ⟨ht, hd⟩ := takeWhile_append hfs (isDigit_head_exponent hx)
    rw [List.cons_append, isFraction, ht, hd, hexp]
    simp [hn]

/-- Digits, a fraction and an exponent are a number, with a sign in front or not. -/
theorem isNumber_sign (hw : isWhole ds = true) (hds : PlainDigits ds) (hf : IsFraction f)
    (hx : PrintedExponent x e) (negative : Bool) :
    isNumber (sign negative (ds ++ f ++ x)) = true := by
  have hhead : ∀ c ∈ (f ++ x).head?, c.isDigit = false := by
    cases hf with
    | none => exact isDigit_head_exponent hx
    | point =>
      rintro _ ⟨⟩
      decide
  obtain ⟨ht, hd⟩ := takeWhile_append hds hhead
  have hcut : (if (sign negative (ds ++ f ++ x)).head? = some '-'
      then (sign negative (ds ++ f ++ x)).tail else sign negative (ds ++ f ++ x)) =
      ds ++ (f ++ x) := by
    rw [List.append_assoc]
    cases negative with
    | true => rfl
    | false =>
      match ds, hw, hds with
      | c :: ds, _, hds =>
        refine if_neg ?_
        rintro ⟨⟩
        exact absurd (hds '-' List.mem_cons_self) (by decide)
  simp only [isNumber, hcut, ht, hd, hw, isFraction_append hf hx, Bool.and_self]

/-! ### Printed numbers -/

theorem isNumber_scientific (d : Decimal) (negative : Bool) :
    isNumber (sign negative (float64.scientific d.digits d.point)) = true := by
  have hp : PlainDigits d.digits := plainDigits_toDigits _
  have hw := isWhole_take Nat.one_pos (isWhole_toDigits d.coefficient)
  have hx := printedExponent float64 (d.point - 1)
  have htp : PlainDigits (d.digits.take 1) := fun c hc => hp c (List.mem_of_mem_take hc)
  unfold Layout.scientific
  dsimp only
  split
  · exact isNumber_sign hw htp .none hx negative
  · next hl =>
    have hdp : PlainDigits (d.digits.drop 1) := fun c hc => hp c (List.mem_of_mem_drop hc)
    have hdn : d.digits.drop 1 ≠ [] := by
      rw [ne_eq, List.drop_eq_nil_iff]
      omega
    exact isNumber_sign hw htp (.point hdn hdp) hx negative

theorem isNumber_positional {d : Decimal} (hd : d.coefficient ≠ 0) (negative : Bool) :
    isNumber (sign negative (float64.positional d.digits d.point)) = true := by
  have hp : PlainDigits d.digits := plainDigits_toDigits _
  have hn := d.digits_ne_nil
  have hw : isWhole d.digits = true := isWhole_toDigits _
  have hz : ∀ n, PlainDigits (zeroDigits n) := plainDigits_zeroDigits
  unfold Layout.positional
  split
  · have hzero : isWhole (zeroDigits 1) = true := rfl
    have h := isNumber_sign hzero (hz 1) (.point (by simp [hn])
      ((hz d.point.natAbs).append hp)) .none negative
    rwa [List.append_nil] at h
  · next h0 =>
    split
    · have hhead : (d.digits ++ zeroDigits (d.point.toNat - d.digits.length)).head? ≠ some '0' := by
        rw [List.head?_append_of_ne_nil _ hn]
        exact head_toDigits hd
      have h := isNumber_sign (isWhole_of_head (by simp [hn]) hhead) (hp.append (hz _))
        (.point (List.cons_ne_nil _ _) (hz 1)) .none negative
      rwa [List.append_nil] at h
    · next hlt =>
      have hdn : d.digits.drop d.point.toNat ≠ [] := by
        rw [ne_eq, List.drop_eq_nil_iff]
        omega
      have h := isNumber_sign (isWhole_take (k := d.point.toNat) (by omega) hw)
        (fun c hc => hp c (List.mem_of_mem_take hc))
        (.point hdn fun c hc => hp c (List.mem_of_mem_drop hc)) .none negative
      rwa [List.append_nil] at h

theorem shortest_coefficient {m : Nat} (hv : Binary64.ofFloat v = .finite false m e) (hm : m ≠ 0) :
    (shortest m e).coefficient ≠ 0 := by
  intro h0
  have hz : (shortest m e).toFloat false = v := toFloat_of_shortest hv rfl
  have h : (shortest m e).toFloat false = 0 := Decimal.toFloat_of_zero ofFloat_zero (by
    rw [Decimal.value, h0, Nat.cast_zero, zero_mul])
  rw [← hz, h, ofFloat_zero] at hv
  injection hv with _ h
  exact hm h.symm

theorem isNumber_magnitude {m : Nat} (hv : Binary64.ofFloat v = .finite false m e)
    (negative : Bool) : isNumber (sign negative (float64.magnitude (shortest m e))) = true := by
  by_cases hm : m = 0
  · subst hm
    rw [shortest, if_pos rfl]
    cases negative <;> decide
  · unfold Layout.magnitude
    split
    · exact isNumber_positional (shortest_coefficient hv hm) negative
    · exact isNumber_scientific _ negative

/-- A text with a point or an exponent is not of a whole number. -/
theorem not_whole_of_mark (h : '.' ∈ w ∨ 'e' ∈ w) (negative : Bool) :
    ((sign negative w).all fun c => c.isDigit || c == '-') = false := by
  rw [List.all_eq_false]
  have hw : ∀ c ∈ w, c ∈ sign negative w := by
    cases negative with
    | false => exact fun c hc => hc
    | true => exact fun c hc => List.mem_cons_of_mem _ hc
  obtain h | h := h
  · exact ⟨'.', hw _ h, by decide⟩
  · exact ⟨'e', hw _ h, by decide⟩

/-- A finite double is printed as a number that stands for it. -/
theorem number?_float (hv : v.isFinite = true) :
    number? (float64.print v).toList = some (.float v) := by
  have hr := readFloat?_print (l := float64) (.inr rfl) hv
  rw [if_pos (show float64.signedZero = true from rfl)] at hr
  obtain ⟨s, m, e, hf⟩ := exists_finite hv
  have habs : ∃ u, Binary64.ofFloat u = .finite false m e := by
    cases s with
    | false => exact ⟨v, hf⟩
    | true => exact ⟨-v, by rw [ofFloat_neg, hf]; rfl⟩
  obtain ⟨u, hu⟩ := habs
  have ht : (float64.print v).toList = sign s (float64.magnitude (shortest m e)) := by
    rw [Layout.print, Layout.printWith, hf]
    dsimp only
    rw [show float64.signedZero = true from rfl, Bool.true_or, Bool.and_true, String.toList_ofList]
  rw [number?, String.ofList_toList, hr, ht, isNumber_magnitude hu,
    not_whole_of_mark (marked_magnitude rfl _)]
  rfl

/-! ### Fixed places -/

/-- The double nearest to a number in some places. -/
def inPlaces (places : Nat) (v : Float) : Float :=
  match Binary64.ofFloat v with
  | .finite negative m e =>
    (⟨toPlaces places .toEven m e, -(places : Int)⟩ : Decimal).toFloat negative
  | _ => v

example : inPlaces 6 0.1234567 = 0.123457 := by decide

theorem length_padLeft (n : Nat) (ds : List Char) : n ≤ (padLeft n ds).length := by
  simp only [padLeft, zeroDigits, List.length_append, List.length_replicate]
  omega

theorem value_padLeft (n k : Nat) : Nat.ofDigitChars 10 (padLeft n (Nat.toDigits 10 k)) 0 = k := by
  rw [padLeft, Nat.ofDigitChars_append, zeroDigits, Nat.ofDigitChars_replicate_zero, Nat.mul_zero,
    Nat.ofDigitChars_ten_toDigits]

theorem plainDigits_padLeft (n k : Nat) : PlainDigits (padLeft n (Nat.toDigits 10 k)) :=
  (plainDigits_zeroDigits _).append (plainDigits_toDigits _)

/-- The digits before and behind the point. -/
theorem layPlaces_eq (hp : 0 < places) (n : Nat) :
    ∃ whole fraction, layPlaces places n = whole ++ '.' :: fraction ∧
      padLeft (places + 1) (Nat.toDigits 10 n) = whole ++ fraction ∧
      isWhole whole = true ∧ fraction.length = places := by
  have hl := length_padLeft (places + 1) (Nat.toDigits 10 n)
  refine ⟨(padLeft (places + 1) (Nat.toDigits 10 n)).take
      ((padLeft (places + 1) (Nat.toDigits 10 n)).length - places),
    (padLeft (places + 1) (Nat.toDigits 10 n)).drop
      ((padLeft (places + 1) (Nat.toDigits 10 n)).length - places), ?_, ?_, ?_, ?_⟩
  · change (if places = 0 then _ else _) = _
    rw [if_neg hp.ne']
  · rw [List.take_append_drop]
  · by_cases h : (Nat.toDigits 10 n).length ≤ places
    · have hone : (padLeft (places + 1) (Nat.toDigits 10 n)).length - places = 1 := by
        simp only [padLeft, zeroDigits, List.length_append, List.length_replicate]
        omega
      rw [hone]
      obtain ⟨c, cs, hc⟩ := List.exists_cons_of_length_pos (Nat.zero_lt_of_lt hl)
      rw [hc]
      rfl
    · have hpad : padLeft (places + 1) (Nat.toDigits 10 n) = Nat.toDigits 10 n := by
        rw [padLeft, Nat.sub_eq_zero_of_le (by omega)]
        rfl
      rw [hpad] at hl ⊢
      exact isWhole_take (by omega) (isWhole_toDigits n)
  · rw [List.length_drop]
    omega

/-- A finite double in fixed places is printed as a number that stands for the nearest double. -/
theorem number?_fixed (hp : 0 < places) (hv : v.isFinite = true) :
    number? (fixedText places v).toList = some (.float (inPlaces places v)) := by
  obtain ⟨s, m, e, hf⟩ := exists_finite hv
  obtain ⟨whole, fraction, hl, hpad, hw, hlen⟩ := layPlaces_eq hp (toPlaces places .toEven m e)
  have hdigits := plainDigits_padLeft (places + 1) (toPlaces places .toEven m e)
  rw [hpad] at hdigits
  have hwd : PlainDigits whole := fun c hc => hdigits c (List.mem_append_left _ hc)
  have hfd : PlainDigits fraction := fun c hc => hdigits c (List.mem_append_right _ hc)
  have hfn : fraction ≠ [] := List.ne_nil_of_length_pos (by omega)
  have hwn : whole ≠ [] := by
    rintro rfl
    exact Bool.false_ne_true hw
  have hnum := isNumber_sign hw hwd (.point hfn hfd) .none s
  have hprinted := Printed.intro hwn hwd (.point hfd) .none
  rw [List.append_nil] at hnum hprinted
  have hvalue : Nat.ofDigitChars 10 (whole ++ fraction) 0 = toPlaces places .toEven m e := by
    rw [← hpad, value_padLeft]
  have ht : (fixedText places v).toList = sign s (whole ++ '.' :: fraction) := by
    rw [fixedText, hf, String.toList_ofList, hl]
  have hr := readFloat?_of_printed hprinted s
  rw [hvalue, hlen, zero_sub] at hr
  rw [number?, ht, hnum, not_whole_of_mark (.inl (by simp)), hr, inPlaces, hf]
  rfl

/-! ### Whole numbers -/

theorem toList_toString (n : Int) :
    (toString n).toList = sign (decide (n < 0)) (Nat.toDigits 10 n.natAbs) := by
  cases n with
  | ofNat n => exact String.toList_ofList
  | negSucc n =>
    change ("-" ++ String.ofList (Nat.toDigits 10 (n + 1))).toList = _
    rw [String.toList_append, String.toList_ofList, String.toList_ofList,
      decide_eq_true (Int.negSucc_lt_zero n)]
    rfl

theorem signed_sign_digits (hds : PlainDigits ds) (negative : Bool) :
    signed (sign negative ds) = (negative, ds) := by
  cases negative with
  | true => rfl
  | false =>
    match ds, hds with
    | [], _ => rfl
    | c :: ds, hds => exact signed_of_digit (hds c List.mem_cons_self)

/-- A whole number is printed as a number that stands for it. -/
theorem number?_int (n : Int) : number? (toString n).toList = some (.int n) := by
  have hd := plainDigits_toDigits n.natAbs
  have hnum := isNumber_sign (isWhole_toDigits n.natAbs) hd .none .none (decide (n < 0))
  have hall : ((sign (decide (n < 0)) (Nat.toDigits 10 n.natAbs)).all
      fun c => c.isDigit || c == '-') = true := by
    rw [List.all_eq_true]
    intro c hc
    obtain rfl | hc : c = '-' ∨ c ∈ Nat.toDigits 10 n.natAbs := by
      unfold sign at hc
      split at hc
      · exact List.mem_cons.1 hc
      · exact .inr hc
    · rfl
    · rw [hd c hc, Bool.true_or]
  rw [List.append_nil, List.append_nil] at hnum
  rw [number?, toList_toString, hnum, hall, signed_sign_digits hd]
  dsimp only
  rw [Nat.ofDigitChars_ten_toDigits, withSign_natAbs]
  rfl

end Relief.Format.Json
