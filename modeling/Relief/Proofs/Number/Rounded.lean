import Mathlib
import Relief.Proofs.Number.Fewest
import Relief.Proofs.Number.Product

/-!
What rounding makes of a number: the double nearest to it, in the sense of `Near`, or infinity from a bound on.
-/
namespace Relief.Number

open Float.Model Float.Model.UnpackedFloat
open Binary64 (minExponent Canonical)

variable {m n : Nat} {e k : Int} {x q q' : ℚ} {s : Bool} {v w : Float} {acc : Accuracy}
  {em : ExtendedMantissa}

/-! ### Bits behind a significand -/

/-- The numbers of which a significand and the bits behind it tell: whether and on which side of the middle they
lie above it. -/
def Describes (em : ExtendedMantissa) (x : ℚ) : Prop :=
  match em.roundBit, em.stickyBit with
  | false, false => x = em.mantissa
  | false, true => em.mantissa < x ∧ x < em.mantissa + 1 / 2
  | true, false => x = em.mantissa + 1 / 2
  | true, true => em.mantissa + 1 / 2 < x ∧ x < em.mantissa + 1

theorem Describes.bounds (h : Describes em x) : em.mantissa ≤ x ∧ x < em.mantissa + 1 := by
  obtain ⟨m, r, t⟩ := em
  cases r <;> cases t <;> simp only [Describes] at h
  · exact ⟨h.ge, by linarith⟩
  · exact ⟨h.1.le, by linarith⟩
  · exact ⟨by linarith, by linarith⟩
  · exact ⟨by linarith, h.2⟩

theorem Describes.shiftRightOne (h : Describes em x) : Describes em.shiftRightOne (x / 2) := by
  obtain ⟨m, r, t⟩ := em
  have hm : (m : ℚ) = 2 * (m / 2 : ℕ) + (m % 2 : ℕ) := by exact_mod_cast (Nat.div_add_mod m 2).symm
  obtain h0 | h1 := Nat.mod_two_eq_zero_or_one m
  · rw [h0, Nat.cast_zero, add_zero] at hm
    cases r <;> cases t <;> simp only [Describes, ExtendedMantissa.shiftRightOne, h0, bne_self_eq_false,
      Bool.or_self, Bool.or_true, Bool.true_or] at h ⊢
    · linarith
    · exact ⟨by linarith, by linarith⟩
    · exact ⟨by linarith, by linarith⟩
    · exact ⟨by linarith, by linarith⟩
  · rw [h1, Nat.cast_one] at hm
    have hone : (1 != 0) = true := rfl
    cases r <;> cases t <;> simp only [Describes, ExtendedMantissa.shiftRightOne, h1, hone,
      Bool.or_self, Bool.or_true, Bool.true_or] at h ⊢
    · linarith
    · exact ⟨by linarith, by linarith⟩
    · exact ⟨by linarith, by linarith⟩
    · exact ⟨by linarith, by linarith⟩

theorem Describes.shiftRight (h : Describes em x) (n : Nat) : Describes (em >>> n) (x / 2 ^ n) := by
  induction n with
  | zero => rwa [pow_zero, div_one]
  | succ n ih =>
    rw [pow_succ, div_mul_eq_div_div]
    exact ih.shiftRightOne

/-- The significand is rounded to the nearer integer, from the middle to the even one. -/
theorem Describes.roundedMantissa (h : Describes em x) :
    (em.roundedMantissa : ℚ) - 1 / 2 ≤ x ∧ x ≤ em.roundedMantissa + 1 / 2 ∧
      (em.roundedMantissa % 2 = 1 →
        (em.roundedMantissa : ℚ) - 1 / 2 < x ∧ x < em.roundedMantissa + 1 / 2) := by
  obtain ⟨m, r, t⟩ := em
  cases r <;> cases t <;> simp only [Describes, ExtendedMantissa.roundedMantissa,
    ExtendedMantissa.accuracy, Accuracy.roundToNearestEven] at h ⊢
  · exact ⟨by linarith, by linarith, fun _ => ⟨by linarith, by linarith⟩⟩
  · exact ⟨by linarith, by linarith, fun _ => ⟨by linarith, by linarith⟩⟩
  · obtain h0 | h1 := Nat.mod_two_eq_zero_or_one m
    · rw [h0]
      exact ⟨by push_cast; linarith, by push_cast; linarith, fun ho => by omega⟩
    · rw [h1]
      exact ⟨by push_cast; linarith, by push_cast; linarith, fun ho => by omega⟩
  · exact ⟨by push_cast; linarith, by push_cast; linarith,
      fun _ => ⟨by push_cast; linarith, by push_cast; linarith⟩⟩

theorem describes_exact (m : Nat) : Describes (.ofMantissaAndAccuracy m .exact) m := rfl

/-! ### Rounding -/

/-- The significands and exponents of doubles, where exponents have no bound above. -/
structure Binary64.Grid (m : Nat) (e : Int) : Prop where
  significand_lt : m < 2 ^ 53
  le_exponent : minExponent ≤ e
  normal : minExponent < e → 2 ^ 52 ≤ m

theorem Binary64.Grid.canonical (h : Grid m e) (he : e ≤ 971) : Canonical m e :=
  ⟨h.1, h.2, he, h.3⟩

theorem targetExponent_le_iff {t : Int} :
    Format.binary64.targetExponent t ≤ e ↔ t - 53 ≤ e ∧ minExponent ≤ e := by
  rw [targetExponent_eq]
  exact max_le_iff

/-- A significand of few enough bits is not shifted. -/
theorem shiftToTargetExponent_eq_self (hm : m < 2 ^ 53) (he : minExponent ≤ e) :
    shiftToTargetExponent .binary64 m e .exact = (⟨m, false, false⟩, e) := by
  have hlog : m.log2 < 53 := by
    obtain rfl | h0 := Nat.eq_zero_or_pos m
    · decide
    · exact (Nat.log2_lt h0.ne').2 hm
  have ht : Format.binary64.targetExponent (totalExponent m e) ≤ e := by
    rw [targetExponent_le_iff, totalExponent]
    exact ⟨by omega, he⟩
  have hshift : (Format.binary64.targetExponent (totalExponent m e) - e).toNat = 0 := by omega
  rw [shiftToTargetExponent, shiftToExponent, hshift]
  simp [ExtendedMantissa.ofMantissaAndAccuracy, HShiftRight.hShiftRight, Nat.repeat]

/-- What was carried to the next power of two is shifted by one. -/
theorem shiftToTargetExponent_carried (he : minExponent ≤ e) :
    shiftToTargetExponent .binary64 (2 ^ 53) e .exact = (⟨2 ^ 52, false, false⟩, e + 1) := by
  have ht : Format.binary64.targetExponent (totalExponent (2 ^ 53) e) = e + 1 := by
    have hmin : minExponent = -1074 := rfl
    rw [targetExponent_eq, totalExponent, Nat.log2_two_pow]
    omega
  have hshift : (e + 1 - e).toNat = 1 := by omega
  rw [shiftToTargetExponent, ht, shiftToExponent, hshift]
  rfl

theorem unpacked_finite (s : Bool) (m : Nat) (e : Int) : (Binary64.finite s m e).unpacked =
    if h : m = 0 then .zero (signum s) else .finite (signum s) m e (Nat.pos_of_ne_zero h) := by
  rw [Binary64.unpacked]
  by_cases h : m = 0
  · rw [dif_neg (by omega), dif_pos h]
  · rw [dif_pos (by omega), dif_neg h]

/-- A rounded significand is one of the grid, or is carried to one. -/
theorem exists_grid (he : minExponent ≤ e) (hlow : (m : ℚ) - 1 / 2 ≤ q / 2 ^ e)
    (hhigh : q / 2 ^ e ≤ m + 1 / 2)
    (hstrict : m % 2 = 1 → (m : ℚ) - 1 / 2 < q / 2 ^ e ∧ q / 2 ^ e < m + 1 / 2)
    (hsmall : q / 2 ^ e < 2 ^ 53) (hbig : minExponent < e → 2 ^ 52 ≤ q / 2 ^ e) :
    ∃ n k, Binary64.Grid n k ∧ Near n k q ∧
      shiftToTargetExponent .binary64 m e .exact = (⟨n, false, false⟩, k) := by
  have hle : m ≤ 2 ^ 53 := by
    have hlt : (m : ℚ) < ((2 ^ 53 + 1 : ℕ) : ℚ) := by
      push_cast
      linarith
    exact Nat.lt_succ_iff.1 (Nat.cast_lt.1 hlt)
  obtain hlt | rfl := Nat.lt_or_eq_of_le hle
  · refine ⟨m, e, ⟨hlt, he, fun hn => ?_⟩, near_of_rounded hlow hhigh hstrict hbig,
      shiftToTargetExponent_eq_self hlt he⟩
    have hge : ((2 ^ 52 : ℕ) : ℚ) < ((m + 1 : ℕ) : ℚ) := by
      have := hbig hn
      push_cast
      linarith
    exact Nat.lt_succ_iff.1 (Nat.cast_lt.1 hge)
  · refine ⟨2 ^ 52, e + 1, ⟨by decide, by omega, fun _ => le_rfl⟩, ?_, shiftToTargetExponent_carried he⟩
    push_cast at hlow
    exact near_of_carried he hlow hsmall

/-- The exponent that is aimed at leaves as many bits of a number as a significand has. -/
theorem targetExponent_spec {t : Int} (ht : Format.binary64.targetExponent (totalExponent m e) = t)
    (he : e ≤ t) (hlow : (m : ℚ) ≤ x) (hhigh : x < m + 1) :
    minExponent ≤ t ∧ x * 2 ^ e / 2 ^ t < 2 ^ 53 ∧ (minExponent < t → 2 ^ 52 ≤ x * 2 ^ e / 2 ^ t) := by
  have hmin : minExponent = -1074 := rfl
  have hp : ∀ j : ℤ, (0 : ℚ) < 2 ^ j := zpow_pos two_pos
  rw [targetExponent_eq, totalExponent] at ht
  refine ⟨by omega, ?_, fun hn => ?_⟩
  · have hlog : ((m + 1 : ℕ) : ℚ) ≤ ((2 ^ (m.log2 + 1) : ℕ) : ℚ) := Nat.cast_le.2 Nat.lt_log2_self
    push_cast at hlog
    rw [div_lt_iff₀ (hp t), ← zpow_natCast, ← zpow_add₀ two_ne_zero]
    calc x * 2 ^ e < 2 ^ (m.log2 + 1) * 2 ^ e := mul_lt_mul_of_pos_right (by linarith) (hp e)
      _ = 2 ^ ((m.log2 : ℤ) + 1 + e) := by
        rw [zpow_add₀ two_ne_zero, ← zpow_natCast, Nat.cast_add_one]
      _ ≤ 2 ^ (((53 : ℕ) : ℤ) + t) := zpow_le_zpow_right₀ one_le_two (by push_cast; omega)
  · have h0 : m ≠ 0 := by
      rintro rfl
      have : (0 : Nat).log2 = 0 := rfl
      omega
    have hlog : ((2 ^ m.log2 : ℕ) : ℚ) ≤ m := Nat.cast_le.2 (Nat.log2_self_le h0)
    push_cast at hlog
    rw [le_div_iff₀ (hp t), ← zpow_natCast, ← zpow_add₀ two_ne_zero]
    calc (2 : ℚ) ^ (((52 : ℕ) : ℤ) + t) ≤ 2 ^ ((m.log2 : ℤ) + e) :=
          zpow_le_zpow_right₀ one_le_two (by push_cast; omega)
      _ = 2 ^ m.log2 * 2 ^ e := by rw [zpow_add₀ two_ne_zero, zpow_natCast]
      _ ≤ x * 2 ^ e := mul_le_mul_of_nonneg_right (by linarith) (hp e).le

theorem mantissa_ofMantissaAndAccuracy (m : Nat) (acc : Accuracy) :
    (ExtendedMantissa.ofMantissaAndAccuracy m acc).mantissa = m := by
  cases acc with
  | exact => rfl
  | inexact o => cases o <;> rfl

/-- Where no bits are missing, rounding finds a number of the grid near the one described. -/
theorem roundWithAccuracy_near (hx : Describes (.ofMantissaAndAccuracy m acc) x)
    (he : e ≤ Format.binary64.targetExponent (totalExponent m e)) (s : Bool) :
    ∃ n k, Binary64.Grid n k ∧ Near n k (x * 2 ^ e) ∧
      roundWithAccuracy .binary64 (signum s) m e acc = (Binary64.finite s n k).unpacked := by
  obtain ⟨hlow, hhigh⟩ := hx.bounds
  rw [mantissa_ofMantissaAndAccuracy] at hlow hhigh
  obtain ⟨t, ht⟩ : ∃ t, Format.binary64.targetExponent (totalExponent m e) = t := ⟨_, rfl⟩
  rw [ht] at he
  obtain ⟨hmin, hsmall, hbig⟩ := targetExponent_spec ht he hlow hhigh
  obtain ⟨j, hj⟩ := Int.eq_ofNat_of_zero_le (sub_nonneg.2 he)
  have hfirst : shiftToTargetExponent .binary64 m e acc =
      (ExtendedMantissa.ofMantissaAndAccuracy m acc >>> j, t) := by
    rw [shiftToTargetExponent, ht, shiftToExponent, hj, Int.toNat_natCast]
    congr 1
    omega
  have hvalue : x * 2 ^ e / 2 ^ t = x / 2 ^ j := by
    have htj : t = e + (j : ℤ) := by omega
    rw [htj, zpow_add₀ two_ne_zero, zpow_natCast, mul_comm (2 ^ e),
      mul_div_mul_right _ _ (zpow_pos two_pos e).ne']
  have hround := (hx.shiftRight j).roundedMantissa
  rw [← hvalue] at hround
  obtain ⟨n, k, hg, hn, hsecond⟩ := exists_grid hmin hround.1 hround.2.1 hround.2.2 hsmall hbig
  refine ⟨n, k, hg, hn, ?_⟩
  rw [unpacked_finite]
  simp only [roundWithAccuracy, hfirst, hsecond]

/-! ### The nearest double -/

/-- A number with a sign. -/
def signedValue (s : Bool) (q : ℚ) : ℚ := if s then -q else q

/-- The number that a finite double is. -/
def Binary64.value : Binary64 → ℚ
  | finite s m e => signedValue s (m * 2 ^ e)
  | _ => 0

def exact (v : Float) : ℚ := (Binary64.ofFloat v).value

/-- What is made of a number: the finite double in whose interval it lies, or infinity if it is too great. -/
inductive Nearest (q : ℚ) (v : Float) : Prop where
  | finite {s : Bool} {m : Nat} {e : Int} (hc : Canonical m e) (hn : Near m e |q|)
    (hs : 0 < m → (s = true ↔ q < 0)) (hv : Binary64.ofFloat v = .finite s m e)
  | infinite {s : Bool} (hq : overflowBound ≤ |q|) (hs : s = true ↔ q < 0)
    (hv : Binary64.ofFloat v = .infinite s)

theorem abs_signedValue (s : Bool) (q : ℚ) : |signedValue s q| = |q| := by
  cases s with
  | false => rfl
  | true => exact abs_neg q

theorem signedValue_neg_iff (h : 0 < q) : signedValue s q < 0 ↔ s = true := by
  cases s with
  | false => exact iff_of_false h.not_gt Bool.false_ne_true
  | true => exact iff_of_true (neg_lt_zero.2 h) rfl

theorem exact_of_finite (hv : Binary64.ofFloat v = .finite s m e) : exact v = signedValue s (m * 2 ^ e) := by
  rw [exact, hv]
  rfl

theorem value_nonneg (m : Nat) (e : Int) : (0 : ℚ) ≤ m * 2 ^ e :=
  mul_nonneg m.cast_nonneg (zpow_pos two_pos e).le

theorem cast_overflowBound : ((overflowBound : ℕ) : ℚ) = (2 ^ 53 - 1 / 2) * 2 ^ (971 : ℤ) := by
  have h971 : (2 : ℚ) ^ (971 : ℤ) = 2 ^ 970 * 2 := by
    rw [← zpow_natCast, ← zpow_add_one₀ two_ne_zero]
    rfl
  rw [overflowBound, Nat.cast_mul, Nat.cast_pow 2 970, Nat.cast_ofNat, h971]
  generalize (2 : ℚ) ^ 970 = p
  push_cast
  ring

/-- The interval of the greatest significand is open, so it does not reach the middle to the next one. -/
theorem Near.div_lt (hm : m < 2 ^ 53) (h : Near m e q) : q / 2 ^ e < 2 ^ 53 - 1 / 2 := by
  obtain hlt | heq := Nat.lt_or_eq_of_le (Nat.le_sub_one_of_lt hm)
  · have hle : ((m + 1 : ℕ) : ℚ) ≤ ((2 ^ 53 - 1 : ℕ) : ℚ) := Nat.cast_le.2 hlt
    push_cast at hle
    have := h.ge
    linarith
  · have hodd : m % 2 = 1 := by omega
    have hcast : (m : ℚ) = 2 ^ 53 - 1 := by
      rw [heq]
      norm_num
    have := (h.strict hodd).2
    linarith

/-- The interval of a power of two reaches down half as far. -/
theorem Near.le_div (hm : 2 ^ 52 ≤ m) (he : minExponent < e) (h : Near m e q) :
    2 ^ 52 - 1 / 4 ≤ q / 2 ^ e := by
  refine le_trans ?_ h.le
  obtain rfl | hlt := hm.eq_or_lt
  · rw [lowerGap, if_pos ⟨rfl, he⟩]
    push_cast
    exact le_rfl
  · have hle : ((2 ^ 52 + 1 : ℕ) : ℚ) ≤ m := Nat.cast_le.2 hlt
    have hgap := lowerGap_le m e
    push_cast at hle
    linarith

/-- At most half a unit of the last place is lost. -/
theorem Near.abs_sub_le (h : Near m e q) : |m * 2 ^ e - q| ≤ 2 ^ e / 2 := by
  have hp : (0 : ℚ) < 2 ^ e := zpow_pos two_pos e
  have hlow : (m : ℚ) - 1 / 2 ≤ q / 2 ^ e := by linarith [h.le, lowerGap_le m e]
  have hhigh := h.ge
  rw [le_div_iff₀ hp] at hlow
  rw [div_le_iff₀ hp] at hhigh
  exact abs_sub_le_iff.2 ⟨by linarith, by linarith⟩

/-- What lies below a power of two is near doubles with exponents far below it only. -/
theorem Binary64.Canonical.exponent_le_of_near {j : Nat} (hc : Canonical m e) (h : Near m e q)
    (hq : q ≤ 2 ^ j) : e ≤ j - 52 := by
  by_contra hgt
  have hmin : minExponent < e := by
    change (-1074 : Int) < e
    omega
  have hpow : (2 : ℚ) ^ (j - 51 : ℤ) ≤ 2 ^ e := zpow_le_zpow_right₀ one_le_two (by omega)
  have hle := h.le_div (hc.normal hmin) hmin
  rw [le_div_iff₀ (zpow_pos two_pos e)] at hle
  have hlt : (2 : ℚ) ^ j < 2 ^ j := by
    calc (2 : ℚ) ^ j = 2 ^ (51 : ℤ) * 2 ^ (j - 51 : ℤ) := by
          rw [← zpow_add₀ two_ne_zero, add_sub_cancel, zpow_natCast]
      _ < (2 ^ 52 - 1 / 4) * 2 ^ (j - 51 : ℤ) :=
          mul_lt_mul_of_pos_right (by norm_num) (zpow_pos two_pos _)
      _ ≤ (2 ^ 52 - 1 / 4) * 2 ^ e := mul_le_mul_of_nonneg_left hpow (by norm_num)
      _ ≤ 2 ^ j := hle.trans hq
  exact lt_irrefl _ hlt

/-- What is near a finite double is below the bound. -/
theorem Binary64.Canonical.lt_bound (hc : Canonical m e) (h : Near m e q) : q < overflowBound := by
  have hlt := h.div_lt hc.significand_lt
  have hle : (2 : ℚ) ^ e ≤ 2 ^ (971 : ℤ) := zpow_le_zpow_right₀ one_le_two hc.exponent_le
  rw [div_lt_iff₀ (zpow_pos two_pos e)] at hlt
  rw [cast_overflowBound]
  exact hlt.trans_le (mul_le_mul_of_nonneg_left hle (by norm_num))

/-- What is near a number of the grid with a greater exponent is not. -/
theorem Binary64.Grid.bound_le (hg : Grid m e) (h : Near m e q) (he : 971 < e) : overflowBound ≤ q := by
  have hmin : minExponent < e := lt_trans (by decide) he
  have hle := h.le_div (hg.normal hmin) hmin
  have hpow : (2 : ℚ) ^ (971 + 1 : ℤ) ≤ 2 ^ e := zpow_le_zpow_right₀ one_le_two he
  rw [zpow_add_one₀ two_ne_zero] at hpow
  rw [le_div_iff₀ (zpow_pos two_pos e)] at hle
  rw [cast_overflowBound]
  calc (2 ^ 53 - 1 / 2) * (2 : ℚ) ^ (971 : ℤ) = (2 ^ 52 - 1 / 4) * (2 ^ (971 : ℤ) * 2) := by ring
    _ ≤ (2 ^ 52 - 1 / 4) * 2 ^ e := mul_le_mul_of_nonneg_left hpow (by norm_num)
    _ ≤ q := hle

/-- Beyond the greatest exponent a result is put together as infinity. -/
theorem ofFloat_pack_overflow (hm : 0 < m) (he : 971 < e) :
    Binary64.ofFloat (.ofModel (.pack (Binary64.finite s m e).unpacked)) = .infinite s := by
  have hpack : UnpackedFloat.pack .binary64 (Binary64.finite s m e).unpacked =
      UnpackedFloat.pack .binary64 (Binary64.infinite s).unpacked := by
    rw [unpacked_finite, dif_neg hm.ne', UnpackedFloat.pack]
    exact if_pos (show 2048 ≤ (e + 1023 + 52).toNat + 1 by omega)
  have hmodel : Float.Model.pack (Binary64.finite s m e).unpacked =
      .pack (Binary64.infinite s).unpacked := by
    simp only [Float.Model.pack, hpack]
  rw [hmodel]
  exact ofFloat_ofModel_pack trivial

theorem nearest_of_grid (hg : Binary64.Grid m e) (hn : Near m e |q|) (hs : 0 < m → (s = true ↔ q < 0)) :
    Nearest q (.ofModel (.pack (Binary64.finite s m e).unpacked)) := by
  by_cases he : e ≤ 971
  · have hc := hg.canonical he
    exact .finite hc hn hs (ofFloat_ofModel_pack (b := .finite s m e) hc)
  · have hmin : minExponent = -1074 := rfl
    have hm : 0 < m := by
      have := hg.normal (by omega)
      omega
    exact .infinite (hg.bound_le hn (not_le.1 he)) (hs hm) (ofFloat_pack_overflow hm (not_le.1 he))

/-- Where no bits are missing, rounding finds the nearest double. -/
theorem nearest_roundWithAccuracy (hx : Describes (.ofMantissaAndAccuracy m acc) x)
    (he : e ≤ Format.binary64.targetExponent (totalExponent m e)) (s : Bool) :
    Nearest (signedValue s (x * 2 ^ e)) (.ofModel (.pack (roundWithAccuracy .binary64 (signum s) m e acc))) := by
  obtain ⟨n, k, hg, hn, hr⟩ := roundWithAccuracy_near hx he s
  have h0 : 0 ≤ x * 2 ^ e := by
    have := hx.bounds.1
    rw [mantissa_ofMantissaAndAccuracy] at this
    exact mul_nonneg (m.cast_nonneg.trans this) (zpow_pos two_pos e).le
  rw [hr]
  refine nearest_of_grid hg ?_ fun hpos => (signedValue_neg_iff (hn.pos hpos)).symm
  rwa [abs_signedValue, abs_of_nonneg h0]

/-! ### What is known of the nearest double -/

theorem Nearest.isFinite_iff (h : Nearest q v) : v.isFinite = true ↔ |q| < overflowBound := by
  rw [Number.isFinite_iff]
  cases h with
  | finite hc hn _ hv => exact iff_of_true ⟨_, _, _, hv⟩ (hc.lt_bound hn)
  | infinite hq _ hv =>
    refine iff_of_false ?_ (not_lt.2 hq)
    rintro ⟨s, m, e, he⟩
    rw [hv] at he
    cases he

theorem nearest_exact (hv : v.isFinite = true) : Nearest (exact v) v := by
  obtain ⟨s, m, e, hv⟩ := exists_finite hv
  rw [exact_of_finite hv]
  refine .finite (canonical_of_finite hv) ?_ (fun hm => ?_) hv
  · rw [abs_signedValue, abs_of_nonneg (value_nonneg m e)]
    exact near_self m e
  · exact (signedValue_neg_iff (mul_pos (Nat.cast_pos.2 hm) (zpow_pos two_pos e))).symm

theorem abs_exact_lt (hv : v.isFinite = true) : |exact v| < overflowBound :=
  (nearest_exact hv).isFinite_iff.1 hv

/-- A rounded number is as far from the exact one as their magnitudes are from each other. -/
theorem abs_exact_sub (hv : Binary64.ofFloat v = .finite s m e) (hs : 0 < m → (s = true ↔ q < 0)) :
    |exact v - q| = |m * 2 ^ e - (|q|)| := by
  rw [exact_of_finite hv]
  obtain rfl | hm := Nat.eq_zero_or_pos m
  · cases s <;> simp [signedValue]
  · cases s with
    | false =>
      have hq : 0 ≤ q := not_lt.1 fun hq => Bool.false_ne_true ((hs hm).2 hq)
      rw [abs_of_nonneg hq]
      rfl
    | true =>
      change |-(m * 2 ^ e : ℚ) - q| = _
      rw [abs_of_neg ((hs hm).1 rfl), sub_neg_eq_add, ← neg_add', abs_neg]

/-- How far a rounded number is from the exact one. -/
theorem Nearest.abs_sub_le {j : Nat} (h : Nearest q v) (hv : v.isFinite = true) (hq : |q| ≤ 2 ^ j) :
    |exact v - q| ≤ 2 ^ (j - 53 : ℤ) := by
  cases h with
  | infinite _ _ hi =>
    obtain ⟨_, _, _, hf⟩ := exists_finite hv
    rw [hi] at hf
    cases hf
  | @finite s m e hc hn hs hf =>
    have hpow : (2 : ℚ) ^ e ≤ 2 ^ (j - 53 + 1 : ℤ) :=
      zpow_le_zpow_right₀ one_le_two (by linarith [hc.exponent_le_of_near hn hq])
    rw [zpow_add_one₀ two_ne_zero] at hpow
    rw [abs_exact_sub hf hs]
    linarith [hn.abs_sub_le]

/-- What is near a number without a sign has none either, unless it is zero. -/
theorem exact_of_nonneg (hv : Binary64.ofFloat v = .finite s m e) (hs : 0 < m → (s = true ↔ q < 0))
    (hq : 0 ≤ q) : exact v = m * 2 ^ e := by
  rw [exact_of_finite hv]
  obtain rfl | hm := Nat.eq_zero_or_pos m
  · cases s <;> simp [signedValue]
  · have : s = false := Bool.eq_false_iff.2 fun h => not_lt.2 hq ((hs hm).1 h)
    rw [this]
    rfl

theorem Nearest.exact_nonneg (h : Nearest q v) (hq : 0 ≤ q) : 0 ≤ exact v := by
  cases h with
  | finite _ _ hs hv =>
    rw [exact_of_nonneg hv hs hq]
    exact value_nonneg _ _
  | infinite _ _ hv =>
    rw [exact, hv]
    rfl

/-- The intervals around doubles are in their order. -/
theorem Near.lt_of_lex (hc : Canonical m e) (hc' : Canonical n k) (h : Near m e q) (h' : Near n k q')
    (hlt : e < k ∨ e = k ∧ m < n) : q < q' := by
  have hp : ∀ j : ℤ, (0 : ℚ) < 2 ^ j := zpow_pos two_pos
  obtain hlt | ⟨rfl, hlt⟩ := hlt
  · have hmin : minExponent < k := hc.le_exponent.trans_lt hlt
    have h1 := h.div_lt hc.significand_lt
    have h2 := h'.le_div (hc'.normal hmin) hmin
    have hpow : (2 : ℚ) ^ (e + 1) ≤ 2 ^ k := zpow_le_zpow_right₀ one_le_two hlt
    rw [zpow_add_one₀ two_ne_zero] at hpow
    rw [div_lt_iff₀ (hp e)] at h1
    rw [le_div_iff₀ (hp k)] at h2
    calc q < (2 ^ 53 - 1 / 2) * 2 ^ e := h1
      _ = (2 ^ 52 - 1 / 4) * (2 ^ e * 2) := by ring
      _ ≤ (2 ^ 52 - 1 / 4) * 2 ^ k := mul_le_mul_of_nonneg_left hpow (by norm_num)
      _ ≤ q' := h2
  · have hle : ((m + 1 : ℕ) : ℚ) ≤ n := Nat.cast_le.2 hlt
    have hgap := lowerGap_le n e
    push_cast at hle
    have h1 := h.ge
    have h2 := h'.le
    -- of two neighbours one is odd, and its interval is open
    have hdiv : q / 2 ^ e < q' / 2 ^ e := by
      obtain hodd | hodd : m % 2 = 1 ∨ (n % 2 = 1 ∨ m + 1 < n) := by omega
      · have := (h.strict hodd).2
        linarith
      · obtain hodd | hfar := hodd
        · have := (h'.strict hodd).1
          linarith
        · have hle : ((m + 2 : ℕ) : ℚ) ≤ n := Nat.cast_le.2 hfar
          push_cast at hle
          linarith
    exact (div_lt_div_iff_of_pos_right (hp e)).1 hdiv

/-- Rounding keeps the order. -/
theorem Nearest.mono (h : Nearest q v) (h' : Nearest q' w) (hw : w.isFinite = true) (hq : 0 ≤ q)
    (hle : q ≤ q') : exact v ≤ exact w := by
  cases h with
  | infinite _ _ hv =>
    rw [exact, hv]
    exact h'.exact_nonneg (hq.trans hle)
  | @finite s m e hc hn hs hv =>
    cases h' with
    | infinite _ _ hw' =>
      obtain ⟨_, _, _, hf⟩ := exists_finite hw
      rw [hw'] at hf
      cases hf
    | @finite t n k hc' hn' ht hw' =>
      rw [abs_of_nonneg hq] at hn
      rw [abs_of_nonneg (hq.trans hle)] at hn'
      rw [exact_of_nonneg hv hs hq, exact_of_nonneg hw' ht (hq.trans hle)]
      by_contra hlt
      have := (lex_iff_value hc' hc).2 (not_le.1 hlt)
      exact not_lt.2 hle (hn'.lt_of_lex hc' hc hn this)

/-- What is a double already is not changed. -/
theorem Nearest.exact_eq (h : Nearest (exact w) v) (hw : w.isFinite = true) (h0 : 0 ≤ exact w) :
    exact v = exact w := by
  have hv : v.isFinite = true := h.isFinite_iff.2 (abs_exact_lt hw)
  exact le_antisymm (h.mono (nearest_exact hw) hw h0 le_rfl) ((nearest_exact hw).mono h hv h0 le_rfl)

/-- What is not above a number of the grid is not rounded above it. -/
theorem Nearest.exact_le_grid (h : Nearest q v) (hg : Binary64.Grid m e) (hq : 0 ≤ q)
    (hle : q ≤ m * 2 ^ e) : exact v ≤ m * 2 ^ e := by
  by_cases he : e ≤ 971
  · obtain ⟨w, hw⟩ := exists_ofFloat (b := .finite false m e) (hg.canonical he)
    have hfinite : w.isFinite = true := Number.isFinite_iff.2 ⟨_, _, _, hw⟩
    have hvalue : exact w = m * 2 ^ e := exact_of_finite hw
    rw [← hvalue] at hle ⊢
    exact h.mono (nearest_exact hfinite) hfinite hq hle
  · cases h with
    | infinite _ _ hv =>
      rw [exact, hv]
      exact value_nonneg m e
    | finite _ _ _ hv =>
      have hlt := abs_exact_lt (Number.isFinite_iff.2 ⟨_, _, _, hv⟩)
      exact (le_abs_self _).trans (hlt.le.trans (hg.bound_le (near_self m e) (not_le.1 he)))

theorem Nearest.exact_le_two_pow {j : Nat} (h : Nearest q v) (hq : 0 ≤ q) (hle : q ≤ 2 ^ j) :
    exact v ≤ 2 ^ j := by
  have hgrid : Binary64.Grid (2 ^ 52) (j - 52) :=
    ⟨by decide, by change (-1074 : Int) ≤ _; omega, fun _ => le_rfl⟩
  have hpow : (2 : ℚ) ^ j = (2 ^ 52 : ℕ) * 2 ^ (j - 52 : ℤ) := by
    rw [Nat.cast_pow, Nat.cast_ofNat, ← zpow_natCast, ← zpow_natCast, ← zpow_add₀ two_ne_zero,
      Nat.cast_ofNat, add_sub_cancel]
  rw [hpow] at hle ⊢
  exact h.exact_le_grid hgrid hq hle

/-- A double that is not below one has all bits of a significand. -/
theorem exists_significand (hv : v.isFinite = true) (h1 : 1 ≤ exact v) :
    ∃ m e, Binary64.Grid m e ∧ 2 ^ 52 ≤ m ∧ exact v = m * 2 ^ e := by
  obtain ⟨s, m, e, hv⟩ := exists_finite hv
  have hc := canonical_of_finite hv
  have hvalue : exact v = m * 2 ^ e := by
    refine exact_of_nonneg (q := 1) hv (fun _ => iff_of_false ?_ (by norm_num)) zero_le_one
    rintro rfl
    rw [exact_of_finite hv] at h1
    have := value_nonneg m e
    change 1 ≤ -(m * 2 ^ e : ℚ) at h1
    linarith
  refine ⟨m, e, ⟨hc.significand_lt, hc.le_exponent, hc.normal⟩, hc.normal ?_, hvalue⟩
  by_contra hle
  have hmin : e ≤ (-53 : ℤ) := (not_lt.1 hle).trans (by decide)
  have hm : (m : ℚ) < 2 ^ 53 := by exact_mod_cast hc.significand_lt
  have hpow : (2 : ℚ) ^ e ≤ 2 ^ (-53 : ℤ) := zpow_le_zpow_right₀ one_le_two hmin
  have hlt : (m : ℚ) * 2 ^ e < 1 := by
    calc (m : ℚ) * 2 ^ e ≤ m * 2 ^ (-53 : ℤ) := mul_le_mul_of_nonneg_left hpow m.cast_nonneg
      _ < 2 ^ 53 * 2 ^ (-53 : ℤ) := mul_lt_mul_of_pos_right hm (zpow_pos two_pos _)
      _ = 1 := by norm_num
  linarith

end Relief.Number
