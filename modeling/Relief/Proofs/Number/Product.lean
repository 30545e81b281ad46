import Mathlib
import Relief.Proofs.Number.Numeral

/-!
Sums and products that cost no precision: with one, with minus one, and with zeros, whose signs alone may
change. A result is finite only if all numbers that it is made of are.
-/
namespace Relief.Number

open Float.Model Float.Model.UnpackedFloat

variable {v w z : Float} {s : Bool} {m : Nat} {e : Int}

/-! ### Exact rounding -/

theorem shiftRight_exact (k m : Nat) :
    (⟨2 ^ k * m, false, false⟩ : ExtendedMantissa) >>> k = ⟨m, false, false⟩ := by
  induction k generalizing m with
  | zero => simp [HShiftRight.hShiftRight, Nat.repeat]
  | succ k ih =>
    have h : (⟨2 ^ k * (2 * m), false, false⟩ : ExtendedMantissa) >>> k = ⟨2 * m, false, false⟩ :=
      ih (2 * m)
    have he : 2 ^ (k + 1) * m = 2 ^ k * (2 * m) := by rw [pow_succ, mul_assoc]
    change ExtendedMantissa.shiftRightOne
      ((⟨2 ^ (k + 1) * m, false, false⟩ : ExtendedMantissa) >>> k) = _
    rw [he, h]
    simp [ExtendedMantissa.shiftRightOne]

theorem targetExponent_eq (t : Int) : Format.binary64.targetExponent t = max (t - 53) (-1074) := rfl

/-- A significand with zeros behind it is rounded to itself. -/
theorem roundWithAccuracy_exact (hc : Binary64.Canonical m e) (hm : 0 < m) (k : Nat) (t : Sign) :
    roundWithAccuracy .binary64 t (2 ^ k * m) (e - k) .exact = .finite t m e hm := by
  have hlog : (2 ^ k * m).log2 = k + m.log2 := by
    induction k with
    | zero => rw [pow_zero, one_mul, Nat.zero_add]
    | succ k ih =>
      have hpos : 2 ^ k * m ≠ 0 := by positivity
      rw [pow_succ', mul_assoc, Nat.log2_two_mul hpos, ih]
      omega
  have h53 : m.log2 < 53 := (Nat.log2_lt hm.ne').2 hc.significand_lt
  have h52 : Binary64.minExponent < e → 52 ≤ m.log2 := fun he =>
    (Nat.le_log2 hm.ne').2 (hc.normal he)
  have hle := hc.le_exponent
  have hmin : Binary64.minExponent = -1074 := rfl
  have h1 : Format.binary64.targetExponent (totalExponent (2 ^ k * m) (e - k)) = e := by
    rw [targetExponent_eq, totalExponent, hlog]
    push_cast
    omega
  have h2 : Format.binary64.targetExponent (totalExponent m e) = e := by
    rw [targetExponent_eq, totalExponent]
    omega
  have hk : (e - (e - (k : Int))).toNat = k := by omega
  have hs : shiftToTargetExponent .binary64 (2 ^ k * m) (e - k) .exact = (⟨m, false, false⟩, e) := by
    rw [shiftToTargetExponent, h1, shiftToExponent, hk]
    rw [ExtendedMantissa.ofMantissaAndAccuracy, shiftRight_exact]
    congr 1
    omega
  have hs2 : shiftToTargetExponent .binary64 m e .exact = (⟨m, false, false⟩, e) := by
    rw [shiftToTargetExponent, h2, shiftToExponent, sub_self]
    simp [ExtendedMantissa.ofMantissaAndAccuracy, HShiftRight.hShiftRight, Nat.repeat]
  have hr : (⟨m, false, false⟩ : ExtendedMantissa).roundedMantissa = m := rfl
  simp only [roundWithAccuracy, hs, hr, hs2]
  rw [dif_neg hm.ne']

/-! ### Products -/

theorem signum_mul (s t : Bool) : signum s * signum t = signum (s ^^ t) := by
  cases s <;> cases t <;> rfl

/-- A product with plus or minus one has the other factor's digits. -/
theorem ofFloat_unit_mul {t : Bool} (hw : Binary64.ofFloat w = .finite t (2 ^ 52) (-52))
    (hv : Binary64.ofFloat v = .finite s m e) :
    Binary64.ofFloat (w * v) = .finite (t ^^ s) m e := by
  have hc := canonical_of_finite hv
  have h : UnpackedFloat.mul .binary64 (fields w) (fields v) =
      (Binary64.finite (t ^^ s) m e).unpacked := by
    rw [fields_eq_unpacked, fields_eq_unpacked, hw, hv, Binary64.unpacked, Binary64.unpacked,
      Binary64.unpacked, dif_pos (by decide)]
    by_cases hm : 0 < m
    · have hr := roundWithAccuracy_exact hc hm 52 (signum (t ^^ s))
      rw [dif_pos hm, dif_pos hm, UnpackedFloat.mul, signum_mul, ← hr]
      congr 1
      ring
    · rw [dif_neg hm, dif_neg hm, UnpackedFloat.mul, signum_mul]
  have hd : (Binary64.finite (t ^^ s) m e).IsDouble := hc
  have hp : w * v = .ofModel (.pack (UnpackedFloat.mul .binary64 (fields w) (fields v))) := rfl
  rw [hp, h, ofFloat_ofModel_pack hd]

theorem float_one_mul (h : v.isFinite = true) : 1.0 * v = v := by
  obtain ⟨s, m, e, hv⟩ := exists_finite h
  have h1 : Binary64.ofFloat 1.0 = .finite false (2 ^ 52) (-52) := by decide
  apply ofFloat_inj
  rw [ofFloat_unit_mul h1 hv, hv, Bool.false_xor]

theorem float_neg_one_mul (h : v.isFinite = true) : -1.0 * v = -v := by
  obtain ⟨s, m, e, hv⟩ := exists_finite h
  have h1 : Binary64.ofFloat (-1.0) = .finite true (2 ^ 52) (-52) := by decide
  apply ofFloat_inj
  rw [ofFloat_unit_mul h1 hv, ofFloat_neg, hv, Bool.true_xor]
  rfl

theorem isZero_pack (t : Sign) : IsZero (.ofModel (.pack (.zero t))) := by
  cases t with
  | positive => exact ⟨.positive, rfl⟩
  | negative => exact ⟨.negative, rfl⟩

theorem isFinite_iff_fields : v.isFinite = (fields v).isFinite := rfl

theorem isZero_mul (hw : IsZero w) (hv : v.isFinite = true) : IsZero (w * v) := by
  obtain ⟨t, ht⟩ := hw
  have h : w * v = .ofModel (.pack (UnpackedFloat.mul .binary64 (.zero t) (fields v))) := by
    rw [← ht]
    rfl
  rw [isFinite_iff_fields] at hv
  rw [h]
  cases hf : fields v with
  | notANumber | infinity =>
    rw [hf] at hv
    cases hv
  | zero | finite => exact isZero_pack _

/-! ### Sums -/

/-- The same number. Only a zero may have another sign. -/
def Same (v w : Float) : Prop := v = w ∨ (IsZero v ∧ IsZero w)

theorem Same.trans {u : Float} (h : Same u v) (h' : Same v w) : Same u w := by
  obtain rfl | ⟨hu, hv⟩ := h
  · exact h'
  · obtain rfl | ⟨-, hw⟩ := h'
    · exact .inr ⟨hu, hv⟩
    · exact .inr ⟨hu, hw⟩

theorem IsZero.isFinite (h : IsZero v) : v.isFinite = true := by
  obtain ⟨t, ht⟩ := h
  rw [isFinite_iff_fields, ht]
  rfl

theorem Same.isFinite (h : Same v w) (hw : w.isFinite = true) : v.isFinite = true := by
  obtain rfl | ⟨hv, -⟩ := h
  · exact hw
  · exact hv.isFinite

theorem pack_fields (v : Float) : Float.ofModel (.pack (fields v)) = v :=
  Float.ofBits_toBits v

theorem isZero_add (hv : IsZero v) (hw : IsZero w) : IsZero (v + w) := by
  obtain ⟨t, ht⟩ := hv
  obtain ⟨t', ht'⟩ := hw
  have h : v + w = .ofModel (.pack (UnpackedFloat.add .binary64 (.zero t) (.zero t'))) := by
    rw [← ht, ← ht']
    rfl
  rw [h, UnpackedFloat.add]
  split <;> exact isZero_pack _

theorem same_pack {u : UnpackedFloat} (h : u = fields v ∨ (IsZero v ∧ ∃ t, u = .zero t)) :
    Same (.ofModel (.pack u)) v := by
  obtain rfl | ⟨hv, t, rfl⟩ := h
  · exact .inl (pack_fields v)
  · exact .inr ⟨isZero_pack t, hv⟩

theorem same_add_zero (hv : v.isFinite = true) (hz : IsZero z) : Same (v + z) v := by
  obtain ⟨t, ht⟩ := hz
  apply same_pack (u := UnpackedFloat.add .binary64 (fields v) (fields z))
  rw [isFinite_iff_fields] at hv
  rw [ht]
  cases hf : fields v with
  | notANumber | infinity =>
    rw [hf] at hv
    cases hv
  | zero s =>
    rw [UnpackedFloat.add]
    exact .inr ⟨⟨s, hf⟩, by split <;> exact ⟨_, rfl⟩⟩
  | finite => exact .inl rfl

theorem float_add_comm (v w : Float) : v + w = w + v := by
  have ha : UnpackedFloat.add .binary64 (fields v) (fields w) =
      UnpackedFloat.add .binary64 (fields w) (fields v) := by
    rcases fields v with s | _ | s | ⟨s, m, e, hm⟩ <;> rcases fields w with t | _ | t | ⟨t, n, k, hn⟩ <;>
      try rfl
    · cases s <;> cases t <;> rfl
    · cases s <;> cases t <;> rfl
    · simp only [UnpackedFloat.add, min_comm e, Int.add_comm]
  have hp : v + w = .ofModel (.pack (UnpackedFloat.add .binary64 (fields v) (fields w))) := rfl
  rw [hp, ha]
  rfl

theorem same_zero_add (hv : v.isFinite = true) (hz : IsZero z) : Same (z + v) v := by
  rw [float_add_comm]
  exact same_add_zero hv hz

/-! ### Finite results -/

theorem isFinite_of_pack {u : UnpackedFloat} (h : (Float.ofModel (.pack u)).isFinite = true) :
    u.isFinite = true := by
  cases u with
  | zero | finite => rfl
  | notANumber =>
    revert h
    decide
  | infinity t =>
    revert h
    cases t <;> decide

theorem isFinite_of_add (h : (v + w).isFinite = true) : v.isFinite = true ∧ w.isFinite = true := by
  have hu := isFinite_of_pack (u := UnpackedFloat.add .binary64 (fields v) (fields w)) h
  rw [isFinite_iff_fields, isFinite_iff_fields]
  cases hv : fields v with
  | notANumber =>
    rw [hv] at hu
    cases hu
  | infinity s =>
    rw [hv] at hu
    cases hw : fields w with
    | infinity t =>
      rw [hw, UnpackedFloat.add] at hu
      split at hu <;> cases hu
    | _ =>
      rw [hw] at hu
      cases hu
  | zero | finite =>
    rw [hv] at hu
    cases hw : fields w with
    | notANumber | infinity =>
      rw [hw] at hu
      cases hu
    | zero | finite => exact ⟨rfl, rfl⟩

theorem isFinite_neg (h : v.isFinite = true) : (-v).isFinite = true := by
  obtain ⟨s, m, e, hv⟩ := exists_finite h
  rw [isFinite_iff_fields, fields_eq_unpacked, ofFloat_neg, hv, Binary64.neg, Binary64.unpacked]
  split <;> rfl

/-- A product is finite only of finite factors. -/
theorem isFinite_of_mul (h : (v * w).isFinite = true) : v.isFinite = true ∧ w.isFinite = true := by
  have hu := isFinite_of_pack (u := UnpackedFloat.mul .binary64 (fields v) (fields w)) h
  rw [isFinite_iff_fields, isFinite_iff_fields]
  cases hv : fields v with
  | notANumber =>
    rw [hv] at hu
    cases hu
  | infinity =>
    rw [hv] at hu
    cases hw : fields w <;>
      (rw [hw] at hu
       cases hu)
  | zero | finite =>
    rw [hv] at hu
    cases hw : fields w with
    | notANumber | infinity =>
      rw [hw] at hu
      cases hu
    | zero | finite => exact ⟨rfl, rfl⟩

/-- A quotient is finite only of a finite dividend. -/
theorem isFinite_of_div (h : (v / w).isFinite = true) : v.isFinite = true := by
  have hu := isFinite_of_pack (u := UnpackedFloat.div .binary64 (fields v) (fields w)) h
  rw [isFinite_iff_fields]
  cases hv : fields v with
  | zero | finite => rfl
  | notANumber =>
    rw [hv] at hu
    cases hu
  | infinity =>
    rw [hv] at hu
    cases hw : fields w <;>
      (rw [hw] at hu
       cases hu)

end Relief.Number
