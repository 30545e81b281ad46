import Mathlib
import Relief.Format.Json
import Relief.Proofs.Number.Product
import Relief.Proofs.Yaml.Stream
import Relief.Yaml.Data

/-!
Numbers as JSON prints them, seen as plain scalars: of which kind they are, and what they stand for.
-/
namespace Relief.Yaml

open Relief.Number Relief.Format Relief.Yaml.Stream

variable {w ds fs x : List Char} {c : Char} {d : Decimal} {v : Float} {m : Nat} {e : Int}
  {negative : Bool}

/-! ### Characters -/

theorem isDigitOf_of_isDigit (h : c.isDigit = true) : isDigitOf 10 c = true := by
  rw [isDigitOf, digitIn?_of_isDigit h, Option.isSome_some, Bool.or_true]

theorem IsBare.of_isDigit (h : c.isDigit = true) : IsBare c := by
  refine .inl ?_
  rw [Char.isAlphanum, h, Bool.or_true]

theorem toLower_of_isDigit (h : c.isDigit = true) : c.toLower = c := by
  have := isDigit_iff.1 h
  rw [Char.toLower, dif_neg]
  rintro ⟨h1, -⟩
  have h1 : 65 ≤ c.toNat := h1
  omega

theorem toLower_ofList (h : ∀ c ∈ w, c.toLower = c) :
    (String.ofList w).toLower = String.ofList w := by
  rw [String.toLower, ← String.toList_inj, String.toList_map, String.toList_ofList]
  exact (List.map_congr_left h).trans (List.map_id w)

theorem isBare_of_printed (h : Printed w d) (negative : Bool) :
    ∀ c ∈ sign negative w, IsBare c := by
  have hw : ∀ c ∈ w, IsBare c :=
    h.forall_mem (fun _ hc => .of_isDigit hc) (.inr (by decide)) (.inl (by decide)) (.inr (by decide))
      (.inr (by decide))
  cases negative with
  | false => exact hw
  | true => exact List.forall_mem_cons.2 ⟨.inr (by decide), hw⟩

/-- What begins with a digit, perhaps behind a sign, is no word. -/
def StartsNumber (cs : List Char) : Prop :=
  ∃ c rest, cs = c :: rest ∧ (c.isDigit = true ∨ c = '-')

theorem startsNumber_sign (h : Printed w d) (negative : Bool) : StartsNumber (sign negative w) := by
  cases negative with
  | false =>
    obtain ⟨c, cs, rfl, hc⟩ := h.exists_cons
    exact ⟨c, cs, rfl, .inl hc⟩
  | true => exact ⟨'-', w, rfl, .inr rfl⟩

theorem not_boolWord {cs : List Char} (h : StartsNumber cs) :
    (boolWords .v12).contains (String.ofList cs) = false := by
  obtain ⟨c, rest, rfl, hc⟩ := h
  have hall : ((boolWords .v12).all fun s =>
      s.toList.head?.any fun c => !c.isDigit && c != '-') = true := by decide
  rw [List.contains_eq_mem, decide_eq_false_iff_not]
  intro hm
  have h := List.all_eq_true.1 hall _ hm
  rw [String.toList_ofList, List.head?_cons, Option.any_some] at h
  obtain hc | rfl := hc
  · rw [hc] at h
    cases h
  · cases h

theorem dropLastBreak_eq {cs : List Char} (h : ∀ c ∈ cs, IsBare c) : dropLastBreak cs = cs := by
  rw [dropLastBreak, if_neg]
  rw [Bool.and_eq_true, not_and, beq_iff_eq]
  intro _ hl
  exact (h _ (List.mem_of_getLast? hl)).ne (by decide) rfl

/-! ### Doubles -/

theorem isExponent_of_printed {e : Int} (h : PrintedExponent x e) : isExponent false x = true := by
  cases h with
  | none => rfl
  | signed hn hx =>
    rw [isExponent, signed_sign]
    have hall := List.all_eq_true.2 hx
    simp [hn, hall]

theorem takeWhile_digits (h : PlainDigits ds) (hx : ∀ c ∈ x.head?, isDigitOf 10 c = false) :
    (ds ++ x).takeWhile (isDigitOf 10) = ds :=
  Cursor.takeWhile_append_of_all (fun c hc => isDigitOf_of_isDigit (h c hc)) hx

theorem head_exponent {e : Int} (h : PrintedExponent x e) :
    ∀ c ∈ x.head?, isDigitOf 10 c = false := by
  cases h with
  | none => rintro _ ⟨⟩
  | signed =>
    rintro _ ⟨⟩
    decide

theorem dropWhile_exponent {e : Int} (h : PrintedExponent x e) :
    x.dropWhile (isDigitOf 10) = x := by
  have hx := head_exponent h
  cases x with
  | nil => rfl
  | cons c x =>
    rw [List.dropWhile_cons_of_neg]
    rw [hx c rfl]
    exact Bool.false_ne_true

theorem signed_sign_of_printed (h : Printed w d) (negative : Bool) :
    signed (sign negative w) = (negative, w) := by
  cases negative with
  | false =>
    obtain ⟨c, cs, rfl, hc⟩ := h.exists_cons
    exact signed_of_digit hc
  | true => rfl

/-- A number with a point or an exponent is seen to be a double. -/
theorem isFloat_of_printed (h : Printed w d) (hm : '.' ∈ w ∨ 'e' ∈ w) (negative : Bool) :
    isFloat .v12 (sign negative w) = true := by
  have hs := signed_sign_of_printed h negative
  cases h with
  | @intro ds f fs x e hn hds hf hx =>
    obtain ⟨c, ds, rfl⟩ := List.exists_cons_of_ne_nil hn
    have hc : (c != '_') = true := by
      rw [bne_iff_ne]
      rintro rfl
      exact absurd (hds '_' List.mem_cons_self) (by decide)
    have hrest : ∀ c ∈ (f ++ x).head?, isDigitOf 10 c = false := by
      cases hf with
      | none => exact head_exponent hx
      | point =>
        rintro _ ⟨⟩
        decide
    have htake := takeWhile_digits hds hrest
    rw [← List.append_assoc] at htake
    unfold isFloat
    rw [hs]
    dsimp only
    rw [htake, List.append_assoc, List.drop_left, List.head?_cons]
    cases hf with
    | point hfs =>
      have hd : (fs ++ x).dropWhile (isDigitOf 10) = x.dropWhile (isDigitOf 10) :=
        List.dropWhile_append_of_pos fun c hc => isDigitOf_of_isDigit (hfs c hc)
      have hx' : isExponent false ((fs ++ x).dropWhile (isDigitOf 10)) = true := by
        rw [hd, dropWhile_exponent hx, isExponent_of_printed hx]
      exact Bool.and_eq_true_iff.2 ⟨hc, hx'⟩
    | none =>
      cases hx with
      | none =>
        rw [List.append_nil, List.append_nil] at hm
        obtain hm | hm := hm <;> exact absurd (hds _ hm) (by decide)
      | signed hxn hxs hv =>
        have hx' := isExponent_of_printed (.signed hxn hxs hv)
        exact Bool.and_eq_true_iff.2 ⟨hc, hx'⟩

theorem print_double (hv : Binary64.ofFloat v = .finite negative m e) :
    ∃ w d, Json.float64.print v = String.ofList (sign negative w) ∧ Printed w d ∧
      ('.' ∈ w ∨ 'e' ∈ w) ∧ d.toFloat negative = v := by
  obtain ⟨d, hd, h⟩ := printed_magnitude (l := Json.float64) (.inr rfl) (shortest m e)
  refine ⟨_, d, ?_, hd, marked_magnitude rfl _, toFloat_of_shortest_sign hv h⟩
  rw [Layout.print, Layout.printWith, hv]
  dsimp only
  rw [show Json.float64.signedZero = true from rfl, Bool.true_or, Bool.and_true]

theorem startsBare_sign (h : Printed w d) (negative : Bool) : StartsBare (sign negative w) := by
  obtain ⟨c, cs, rfl, hc⟩ := h.exists_cons
  have ha : c.isAlphanum = true := by rw [Char.isAlphanum, hc, Bool.or_true]
  cases negative with
  | false => exact ⟨c, cs, rfl, .inl ha⟩
  | true => exact ⟨'-', c :: cs, rfl, .inr ⟨rfl, c, cs, rfl, ha⟩⟩

theorem ofPlain_of_printed (h : Printed w d) (hm : '.' ∈ w ∨ 'e' ∈ w) (negative : Bool) :
    Kind.ofPlain .v12 (String.ofList (sign negative w)) = .float .v12 := by
  rw [Kind.ofPlain, String.toList_ofList, dropLastBreak_eq (isBare_of_printed h negative),
    not_boolWord (startsNumber_sign h negative), isFloat_of_printed h hm negative]
  rfl

theorem numeral_eq {cs : List Char} (h : ∀ c ∈ cs, IsBare c) (hn : cs ≠ []) :
    numeral (String.ofList cs) = .ok (signed cs) := by
  have hf : cs.filter (· != '_') = cs :=
    List.filter_eq_self.2 fun c hc => bne_iff_ne.2 ((h c hc).ne (by decide))
  rw [numeral, String.toList_ofList, hf]
  cases cs with
  | nil => exact absurd rfl hn
  | cons c cs => rfl

theorem magnitudeOf_of_printed (h : Printed w d) :
    magnitudeOf .v12 w = .ok (d.toFloat false) := by
  have hw : ∀ c ∈ w, c.toLower = c :=
    h.forall_mem (fun _ hc => toLower_of_isDigit hc) (by decide) (by decide) (by decide) (by decide)
  have hl := toLower_ofList hw
  obtain ⟨c, cs, rfl, hc⟩ := h.exists_cons
  have hne : ∀ name : String, (name.toList.head?.all fun c => !c.isDigit) = true →
      String.ofList (c :: cs) ≠ name := by
    rintro name hname rfl
    rw [String.toList_ofList, List.head?_cons] at hname
    simp [hc] at hname
  unfold magnitudeOf
  rw [hl]
  split
  · next he => exact absurd he (hne _ (by decide))
  · next he => exact absurd he (hne _ (by decide))
  · have hr : readFloat? (String.ofList (c :: cs)) = _ := readFloat?_of_printed h false
    have hv : (Version.v12 == Version.v11 && (c :: cs).contains ':') = false := rfl
    rw [hv, if_neg Bool.false_ne_true, hr, orNumber]

/-- A finite double is read as itself. -/
theorem floatOf_print (hv : v.isFinite = true) :
    floatOf .v12 (Json.float64.print v) = .ok (.float v) := by
  obtain ⟨negative, m, e, hv'⟩ := exists_finite hv
  obtain ⟨w, d, hp, hw, hm, hd⟩ := print_double hv'
  rw [hp, floatOf, numeral_eq (isBare_of_printed hw negative)]
  · rw [signed_sign_of_printed hw negative]
    change ((magnitudeOf .v12 w).bind fun x =>
      .ok (Value.float (if negative then -1.0 * x else x))) = .ok (Value.float v)
    rw [magnitudeOf_of_printed hw, Except.bind]
    cases negative with
    | false => rw [if_neg Bool.false_ne_true, hd]
    | true =>
      have hneg : d.toFloat false = -v := by
        rw [← float_neg_neg (d.toFloat false), ← Decimal.toFloat_true, hd]
      rw [if_pos rfl, hneg, float_neg_one_mul (isFinite_neg hv), float_neg_neg]
  · obtain ⟨c, cs, hc, -⟩ := startsNumber_sign hw negative
    rw [hc]
    exact List.cons_ne_nil c cs

/-! ### Whole numbers -/

theorem toString_natCast (n : Nat) : toString (n : Int) = String.ofList (Nat.toDigits 10 n) := rfl

theorem exists_cons_toDigits (n : Nat) : ∃ c cs, Nat.toDigits 10 n = c :: cs ∧ c.isDigit = true := by
  obtain ⟨c, cs, h⟩ := List.exists_cons_of_ne_nil (Nat.toDigits_ne_nil (b := 10) (n := n))
  exact ⟨c, cs, h, plainDigits_toDigits n c (h ▸ List.mem_cons_self)⟩

theorem startsBare_toDigits (n : Nat) : StartsBare (Nat.toDigits 10 n) := by
  obtain ⟨c, cs, h, hc⟩ := exists_cons_toDigits n
  rw [h]
  exact ⟨c, cs, rfl, .inl (by rw [Char.isAlphanum, hc, Bool.or_true])⟩

theorem isBare_toDigits (n : Nat) : ∀ c ∈ Nat.toDigits 10 n, IsBare c :=
  fun _ hc => .of_isDigit (plainDigits_toDigits n _ hc)

/-- Digits alone are no double. -/
theorem isFloat_digits (h : PlainDigits ds) (hn : ds ≠ []) : isFloat .v12 ds = false := by
  obtain ⟨c, ds, rfl⟩ := List.exists_cons_of_ne_nil hn
  have hs : signed (c :: ds) = (false, c :: ds) := signed_of_digit (h c List.mem_cons_self)
  have htake : (c :: ds).takeWhile (isDigitOf 10) = c :: ds :=
    List.takeWhile_eq_self_iff.2 fun c hc => isDigitOf_of_isDigit (h c hc)
  unfold isFloat
  rw [hs]
  dsimp only
  rw [htake, List.drop_length]
  rfl

/-- What begins with a digit and goes on with digits has no letter for a base. -/
theorem basePart_digits (h : PlainDigits ds) : basePart ds = (10, ds) := by
  have hne : ∀ b : Char, b.isDigit = false → ∀ cs, ds ≠ '0' :: b :: cs := by
    rintro b hb cs rfl
    rw [h b (by simp)] at hb
    cases hb
  unfold basePart
  split
  · exact absurd rfl (hne 'b' (by decide) _)
  · exact absurd rfl (hne 'o' (by decide) _)
  · exact absurd rfl (hne 'x' (by decide) _)
  · rfl

theorem isInt_digits (h : PlainDigits ds) (hn : ds ≠ []) : isInt .v12 ds = true := by
  obtain ⟨c, ds, rfl⟩ := List.exists_cons_of_ne_nil hn
  have hc := h c List.mem_cons_self
  have hne : c ≠ '_' := by
    rintro rfl
    exact absurd hc (by decide)
  have hall : (c :: ds).all (isDigitOf 10) = true :=
    List.all_eq_true.2 fun c hc => isDigitOf_of_isDigit (h c hc)
  rw [isInt, signed_of_digit hc, basePart_digits h]
  simp [isDigits, hall, hne]

theorem ofPlain_toDigits (n : Nat) :
    Kind.ofPlain .v12 (String.ofList (Nat.toDigits 10 n)) = .int .v12 := by
  have hd := plainDigits_toDigits n
  have hn : Nat.toDigits 10 n ≠ [] := Nat.toDigits_ne_nil
  obtain ⟨c, cs, h, hc⟩ := exists_cons_toDigits n
  rw [Kind.ofPlain, String.toList_ofList, dropLastBreak_eq (isBare_toDigits n),
    not_boolWord ⟨c, cs, h, .inl hc⟩, isFloat_digits hd hn, isInt_digits hd hn]
  rfl

theorem signed_toDigits (n : Nat) : signed (Nat.toDigits 10 n) = (false, Nat.toDigits 10 n) := by
  obtain ⟨c, cs, h, hc⟩ := exists_cons_toDigits n
  rw [h, signed_of_digit hc]

theorem readInt?_toDigits {n : Nat} (h : (Nat.toDigits 10 n).length ≤ maxDigits) :
    readInt? (String.ofList (Nat.toDigits 10 n)) = some (n : Int) := by
  have hd := plainDigits_toDigits n
  have hp : plain (String.ofList (Nat.toDigits 10 n)) = Nat.toDigits 10 n := by
    apply plain_of_visible
    intro c hc
    have := isDigit_iff.1 (hd c hc)
    omega
  have hs : signedDigits? 10 (String.ofList (Nat.toDigits 10 n)) =
      some (false, (Nat.toDigits 10 n).map (·.toNat - 48)) := by
    have hrun := digitRun_digits hd
    obtain ⟨c, cs, he, -⟩ := exists_cons_toDigits n
    rw [signedDigits?, hp, signed_toDigits]
    dsimp only
    rw [hrun, he]
    rfl
  rw [readInt?, hs]
  dsimp only
  rw [List.length_map, if_pos h, digitsIn_digits, Nat.ofDigitChars_ten_toDigits]
  rfl

/-- A whole number of few enough digits is read as itself. -/
theorem intOf_toDigits {n : Nat} (h : (Nat.toDigits 10 n).length ≤ maxDigits) :
    intOf .v12 (String.ofList (Nat.toDigits 10 n)) = .ok (.int n) := by
  have ha : absOf .v12 (Nat.toDigits 10 n) = .ok n := by
    unfold absOf
    rw [basePart_digits (plainDigits_toDigits n)]
    change orNumber (readInt? (String.ofList (Nat.toDigits 10 n))) = _
    rw [readInt?_toDigits h, orNumber]
  rw [intOf, numeral_eq (isBare_toDigits n) Nat.toDigits_ne_nil, signed_toDigits]
  change ((absOf .v12 (Nat.toDigits 10 n)).bind fun n =>
    .ok (Value.int (if false then -n else n))) = .ok (Value.int n)
  rw [ha]
  rfl

/-! ### Truth values -/

/-- The word for a truth value. -/
def boolWord (b : Bool) : List Char := if b then "true".toList else "false".toList

theorem isBare_boolWord (b : Bool) : ∀ c ∈ boolWord b, IsBare c := by
  have h : ((boolWord b).all fun c => c.isAlphanum) = true := by cases b <;> decide
  exact fun c hc => .inl (List.all_eq_true.1 h c hc)

theorem startsBare_boolWord (b : Bool) : StartsBare (boolWord b) := by
  cases b with
  | false => exact ⟨'f', _, rfl, .inl (by decide)⟩
  | true => exact ⟨'t', _, rfl, .inl (by decide)⟩

theorem ofPlain_boolWord (b : Bool) : Kind.ofPlain .v12 (String.ofList (boolWord b)) = .bool := by
  cases b <;> decide

theorem boolOf_boolWord (b : Bool) : boolOf (String.ofList (boolWord b)) = .ok (.bool b) := by
  have hw : ((boolWord b).all fun c => c.toLower == c) = true := by cases b <;> decide
  have hl := toLower_ofList fun c hc => beq_iff_eq.1 (List.all_eq_true.1 hw c hc)
  have ht : trueWords.contains (String.ofList (boolWord b)) = b := by cases b <;> decide
  have hf : falseWords.contains (String.ofList (boolWord b)) = !b := by cases b <;> decide
  rw [boolOf, hl, ht, hf]
  cases b <;> rfl

end Relief.Yaml
