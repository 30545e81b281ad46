import Mathlib
import Relief.Expr.Print
import Relief.Proofs.Number.Double
import Relief.Proofs.Number.Shortest
import Relief.Proofs.Scan.Spelling

/-!
Texts of numbers: however the digits of a decimal are laid out, they spell a number of the same value.
-/
namespace Relief.Number

open Relief.Text Relief.Scan

variable {ds fs w : List Char} {c : Char} {d : Decimal} {l : Layout}

/-! ### ASCII digits -/

def PlainDigits (cs : List Char) : Prop := ∀ c ∈ cs, c.isDigit = true

theorem digit?_of_isDigit (h : c.isDigit = true) : digit? c = some (c.toNat - 48) := by
  obtain ⟨h1, h2⟩ := Char.isDigit_iff_toNat.1 h
  have h3 : c.toNat < 128 := Nat.lt_of_le_of_lt h2 (by decide)
  rw [digit?, if_pos h3, if_pos ⟨h1, h2⟩]

theorem PlainDigits.isDigits (h : PlainDigits ds) : IsDigits ds := fun c hc => by
  rw [isDigit, digit?_of_isDigit (h c hc)]
  rfl

theorem PlainDigits.append (h : PlainDigits ds) (h' : PlainDigits fs) : PlainDigits (ds ++ fs) :=
  fun c hc => (List.mem_append.1 hc).elim (h c) (h' c)

theorem plainDigits_toDigits (n : Nat) : PlainDigits (Nat.toDigits 10 n) := fun _ hc =>
  Nat.isDigit_of_mem_toDigits (by decide) (by decide) hc

theorem plainDigits_zeroDigits (n : Nat) : PlainDigits (zeroDigits n) := fun c hc => by
  rw [List.eq_of_mem_replicate hc]
  rfl

theorem PlainDigits.worth_eq (h : PlainDigits ds) : worth ds = Nat.ofDigitChars 10 ds 0 := by
  have hf : ∀ v, (ds.filterMap digit?).foldl (fun v d => 10 * v + d) v =
      Nat.ofDigitChars 10 ds v := by
    induction ds with
    | nil => exact fun v => rfl
    | cons c ds ih =>
      intro v
      rw [List.filterMap_cons_some (digit?_of_isDigit (h c List.mem_cons_self)), List.foldl_cons,
        ih fun c hc => h c (List.mem_cons_of_mem _ hc)]
      exact Nat.ofDigitChars_cons.symm
  exact hf 0

/-! ### Printed numbers -/

/-- A fraction as it is printed, with its digits. -/
inductive PrintedFraction : List Char → List Char → Prop where
  | none : PrintedFraction [] []
  | point {fs : List Char} : PlainDigits fs → PrintedFraction ('.' :: fs) fs

inductive PrintedExponent : List Char → Int → Prop where
  | none : PrintedExponent [] 0
  | signed {e : Int} {xs : List Char} : xs ≠ [] → PlainDigits xs →
    Nat.ofDigitChars 10 xs 0 = e.natAbs →
    PrintedExponent ('e' :: (if e < 0 then '-' else '+') :: xs) e

/-- A number as it is printed: ASCII digits, perhaps a fraction, perhaps an exponent with its sign. -/
inductive Printed : List Char → Decimal → Prop where
  | intro {ds f fs x : List Char} {e : Int} : ds ≠ [] → PlainDigits ds → PrintedFraction f fs →
    PrintedExponent x e → Printed (ds ++ f ++ x) ⟨Nat.ofDigitChars 10 (ds ++ fs) 0, e - fs.length⟩

theorem PrintedExponent.exponentText {x : List Char} {e : Int} (h : PrintedExponent x e) :
    ExponentText x e := by
  cases h with
  | none => exact .none
  | @signed e xs hn hp hv =>
    have hs : (if e < 0 then '-' else '+') = '+' ∨ (if e < 0 then '-' else '+') = '-' := by
      split
      · exact .inr rfl
      · exact .inl rfl
    have he : e = withSign ((if e < 0 then '-' else '+') == '-') (worth xs) := by
      rw [hp.worth_eq, hv]
      split
      · simp only [withSign, beq_self_eq_true, if_true]
        omega
      · simp only [withSign]
        rw [if_neg (by decide)]
        omega
    conv => right; rw [he]
    exact .signed rfl hs hn hp.isDigits

theorem Printed.numberText (h : Printed w d) : NumberText w d := by
  cases h with
  | intro hn hd hf hx =>
    refine .intro ?_ hx.exponentText
    cases hf with
    | none =>
      rw [List.append_nil, ← hd.worth_eq]
      exact .whole hn hd.isDigits
    | point hp =>
      rw [← (hd.append hp).worth_eq]
      exact .point (by simp [hn]) hd.isDigits hp.isDigits

/-! ### Layouts -/

theorem Decimal.digits_ne_nil (d : Decimal) : d.digits ≠ [] := Nat.toDigits_ne_nil

theorem Decimal.value_digits (d : Decimal) : Nat.ofDigitChars 10 d.digits 0 = d.coefficient :=
  Nat.ofDigitChars_ten_toDigits

theorem printedExponent (l : Layout) (e : Int) : PrintedExponent ('e' :: l.exponent e) e := by
  refine .signed ?_ ?_ ?_
  · simp [padLeft, Nat.toDigits_ne_nil]
  · exact (plainDigits_zeroDigits _).append (plainDigits_toDigits _)
  · rw [padLeft, Nat.ofDigitChars_append, zeroDigits, Nat.ofDigitChars_replicate_zero, Nat.mul_zero,
      Nat.ofDigitChars_ten_toDigits]

/-- Decimals have the same value if one has more zeros at the end of its coefficient. -/
theorem Decimal.value_eq {c c' n : Nat} {e e' : Int} (hc : c' = 10 ^ n * c) (he : e' + n = e) :
    (⟨c', e'⟩ : Decimal).value = (⟨c, e⟩ : Decimal).value := by
  subst hc he
  simp only [value]
  rw [zpow_add₀ (by norm_num), zpow_natCast]
  push_cast
  ring

theorem printed_scientific (l : Layout) (d : Decimal) :
    ∃ d', Printed (l.scientific d.digits d.point) d' ∧ d'.value = d.value := by
  have hp : PlainDigits d.digits := plainDigits_toDigits _
  have hn := d.digits_ne_nil
  have hpos : 0 < d.digits.length := List.length_pos_iff.2 hn
  have hx := printedExponent l (d.point - 1)
  have ht : d.digits.take 1 ≠ [] := by simp [hn]
  have htp : PlainDigits (d.digits.take 1) := fun c hc => hp c (List.mem_of_mem_take hc)
  unfold Layout.scientific
  dsimp only
  split
  · next hl =>
    refine ⟨_, .intro ht htp .none hx, ?_⟩
    rw [List.append_nil, List.take_of_length_le hl, d.value_digits]
    refine Decimal.value_eq (n := 0) (by simp) ?_
    simp only [Decimal.point, List.length_nil]
    omega
  · next hl =>
    have hdp : PlainDigits (d.digits.drop 1) := fun c hc => hp c (List.mem_of_mem_drop hc)
    refine ⟨_, .intro ht htp (.point hdp) hx, ?_⟩
    rw [List.take_append_drop, d.value_digits]
    refine Decimal.value_eq (n := 0) (by simp) ?_
    simp only [Decimal.point, List.length_drop]
    omega

theorem printed_positional (hl : l.wholeMark = "" ∨ l.wholeMark = ".0") (d : Decimal) :
    ∃ d', Printed (l.positional d.digits d.point) d' ∧ d'.value = d.value := by
  have hp : PlainDigits d.digits := plainDigits_toDigits _
  have hn := d.digits_ne_nil
  have hz : ∀ n, PlainDigits (zeroDigits n) := plainDigits_zeroDigits
  unfold Layout.positional
  split
  · next h0 =>
    have hz1 : PlainDigits ['0'] := hz 1
    have h := Printed.intro (List.cons_ne_nil _ _) hz1 (.point ((hz d.point.natAbs).append hp)) .none
    rw [List.append_nil] at h
    refine ⟨_, h, Decimal.value_eq (n := 0) ?_ ?_⟩
    · rw [Nat.ofDigitChars_append, Nat.ofDigitChars_append, zeroDigits,
        Nat.ofDigitChars_replicate_zero]
      simp [Nat.ofDigitChars_cons, d.value_digits]
    · simp only [Decimal.point, zeroDigits, List.length_append, List.length_replicate] at h0 ⊢
      omega
  · next h0 =>
    split
    · next hle =>
      have hw : PlainDigits (d.digits ++ zeroDigits (d.point.toNat - d.digits.length)) :=
        hp.append (hz _)
      have hv : Nat.ofDigitChars 10 (d.digits ++ zeroDigits (d.point.toNat - d.digits.length)) 0 =
          10 ^ (d.point.toNat - d.digits.length) * d.coefficient := by
        rw [Nat.ofDigitChars_append, d.value_digits, zeroDigits, Nat.ofDigitChars_replicate_zero]
      have he : d.exponent = (d.point.toNat - d.digits.length : ℕ) := by
        simp only [Decimal.point] at hle h0 ⊢
        omega
      obtain hl | hl := hl
      · have h := Printed.intro (by simp [hn]) hw .none .none
        rw [List.append_nil] at h
        rw [hl]
        refine ⟨_, h, Decimal.value_eq (n := d.point.toNat - d.digits.length) ?_ ?_⟩
        · rw [List.append_nil, hv]
        · rw [he, List.length_nil]
          omega
      · have h := Printed.intro (by simp [hn]) hw (.point (hz 1)) .none
        rw [List.append_nil] at h
        rw [hl]
        refine ⟨_, h, Decimal.value_eq (n := d.point.toNat - d.digits.length + 1) ?_ ?_⟩
        · rw [Nat.ofDigitChars_append, hv, zeroDigits, Nat.ofDigitChars_replicate_zero, pow_succ]
          ring
        · rw [he, zeroDigits, List.length_replicate]
          omega
    · next hlt =>
      have ht : d.digits.take d.point.toNat ≠ [] := by
        rw [ne_eq, List.take_eq_nil_iff, not_or]
        exact ⟨by omega, hn⟩
      have htp : PlainDigits (d.digits.take d.point.toNat) := fun c hc =>
        hp c (List.mem_of_mem_take hc)
      have hdp : PlainDigits (d.digits.drop d.point.toNat) := fun c hc =>
        hp c (List.mem_of_mem_drop hc)
      have h := Printed.intro ht htp (.point hdp) .none
      rw [List.append_nil] at h
      refine ⟨_, h, Decimal.value_eq (n := 0) ?_ ?_⟩
      · rw [List.take_append_drop, d.value_digits, pow_zero, one_mul]
      · simp only [Decimal.point, List.length_drop] at h0 hlt ⊢
        omega

theorem printed_magnitude (hl : l.wholeMark = "" ∨ l.wholeMark = ".0") (d : Decimal) :
    ∃ d', Printed (l.magnitude d) d' ∧ d'.value = d.value := by
  unfold Layout.magnitude
  split
  · exact printed_positional hl d
  · exact printed_scientific l d

/-- A double is written with a point or with an exponent. -/
theorem marked_magnitude (hl : l.wholeMark = ".0") (d : Decimal) :
    '.' ∈ l.magnitude d ∨ 'e' ∈ l.magnitude d := by
  unfold Layout.magnitude Layout.positional Layout.scientific
  rw [hl]
  split
  · split
    · exact .inl (by simp)
    · split <;> exact .inl (by simp)
  · exact .inr (by simp)

/-- A number in its shortest digits reads back, bit for bit. -/
theorem printed_print (hl : l.wholeMark = "" ∨ l.wholeMark = ".0") {v : Float} {m : Nat} {e : Int}
    (hv : Binary64.ofFloat v = .finite false m e) :
    ∃ d, Printed (l.print v).toList d ∧ d.toFloat false = v := by
  obtain ⟨d, hd, h⟩ := printed_magnitude hl (shortest m e)
  refine ⟨d, ?_, toFloat_of_shortest hv h⟩
  rw [Layout.print, Layout.printWith, hv]
  simpa [sign] using hd

end Relief.Number

namespace Relief.Expr

open Relief.Number

theorem printed_numText {v : Float} {m : Nat} {e : Int}
    (hv : Binary64.ofFloat v = .finite false m e) (hc : constants.find? (·.2 == v) = none) :
    ∃ d, Printed (numText v).toList d ∧ d.toFloat false = v := by
  unfold numText
  rw [hc]
  dsimp only
  split
  · exact printed_print (.inl rfl) hv
  · exact printed_print (.inr rfl) hv

theorem not_isZero_constant {name : String} {w : Float} (h : (name, w) ∈ constants) :
    ¬ IsZero w := by
  simp only [constants, List.mem_cons, Prod.mk.injEq, List.not_mem_nil, or_false] at h
  obtain ⟨-, rfl⟩ | ⟨-, rfl⟩ := h
  · rintro ⟨s, hs⟩
    cases hs
  · rintro ⟨s, hs⟩
    cases hs

/-- Only a constant is printed by its name. -/
theorem numText_constant {v w : Float} {name : String}
    (hc : constants.find? (·.2 == v) = some (name, w)) :
    numText v = name ∧ (name, v) ∈ constants := by
  have hm := List.mem_of_find?_eq_some hc
  have he : (w == v) = true := by simpa using List.find?_some hc
  obtain rfl | ⟨hz, -⟩ := eq_or_isZero he
  · refine ⟨?_, hm⟩
    unfold numText
    rw [hc]
  · exact absurd hz (not_isZero_constant hm)

/-- A zero is printed without its sign. -/
theorem numText_of_zero {v : Float} {s : Bool} {e : Int} (hv : Binary64.ofFloat v = .finite s 0 e)
    (hc : constants.find? (·.2 == v) = none) (ha : v.abs < wholeLimit) :
    numText v = String.ofList (Layout.magnitude { general with wholeMark := "", signedZero := false }
      (shortest 0 e)) := by
  have hw : ((Binary64.ofFloat v).isWhole && v.abs < wholeLimit) = true := by
    simp [hv, Binary64.isWhole, ha]
  unfold numText
  rw [hc]
  dsimp only
  rw [if_pos hw, Layout.print, Layout.printWith, hv]
  simp [sign]

end Relief.Expr
