import Mathlib
import Relief.Number.Binary64

/-!
Quotients as rational numbers: what scaling, magnitudes and rounding are in terms of their values.
-/
namespace Relief.Number

/-! ### Rounding -/

theorem roundDiv_eq {num den q r : Nat} (h : num = r + den * q) (hr : r < den) :
    roundDiv num den .toEven =
      if 2 * r < den then q else if den < 2 * r then q + 1 else q + q % 2 := by
  have hd : 0 < den := Nat.zero_lt_of_lt hr
  have hq : num / den = q := by
    rw [h, Nat.add_mul_div_left _ _ hd, Nat.div_eq_of_lt hr, Nat.zero_add]
  have hm : num % den = r := by
    rw [h, Nat.add_mul_mod_self_left, Nat.mod_eq_of_lt hr]
  simp only [roundDiv, hq, hm]

/-- The nearest natural number is at most one half away, and less than that if it is odd. -/
theorem roundDiv_toEven_bounds (num : Nat) {den : Nat} (hd : 0 < den) :
    2 * roundDiv num den .toEven * den ≤ 2 * num + den ∧
      2 * num ≤ 2 * roundDiv num den .toEven * den + den ∧
      (roundDiv num den .toEven % 2 = 1 →
        2 * roundDiv num den .toEven * den < 2 * num + den ∧
          2 * num < 2 * roundDiv num den .toEven * den + den) := by
  have hr := Nat.mod_lt num hd
  have hn : num = num % den + den * (num / den) := (Nat.mod_add_div num den).symm
  rw [roundDiv_eq hn hr]
  generalize num / den = q at hn
  generalize num % den = r at hn hr
  subst hn
  split
  · exact ⟨by nlinarith, by nlinarith, fun _ => ⟨by nlinarith, by nlinarith⟩⟩
  · split
    · exact ⟨by nlinarith, by nlinarith, fun _ => ⟨by nlinarith, by nlinarith⟩⟩
    · -- a quotient in the middle goes to the even one of its neighbours
      obtain hq | hq := Nat.mod_two_eq_zero_or_one q
      · rw [hq]
        exact ⟨by nlinarith, by nlinarith, fun ho => by omega⟩
      · rw [hq]
        exact ⟨by nlinarith, by nlinarith, fun ho => by omega⟩

namespace Ratio

variable {r : Ratio} {base : Nat} {e : Int}

/-- The rational number that a quotient is. -/
def value (r : Ratio) : ℚ := r.num / r.den

theorem value_ofNat (n : Nat) : (ofNat n).value = n := by
  simp [value, ofNat]

theorem value_scale (r : Ratio) (base : Nat) (e : Int) :
    (r.scale base e).value = r.value * (base : ℚ) ^ e := by
  cases e with
  | ofNat k => simp [value, scale, div_mul_eq_mul_div]
  | negSucc k =>
    simp only [value, scale, Nat.pow_eq, Nat.cast_mul, Nat.cast_pow, zpow_negSucc]
    rw [div_mul_eq_div_div, div_eq_mul_inv]

theorem den_scale_pos (hd : 0 < r.den) (hb : 0 < base) (e : Int) : 0 < (r.scale base e).den := by
  cases e with
  | ofNat k => exact hd
  | negSucc k => exact Nat.mul_pos hd (Nat.pow_pos hb)

theorem num_scale_pos (hn : 0 < r.num) (hb : 0 < base) (e : Int) : 0 < (r.scale base e).num := by
  cases e with
  | ofNat k => exact Nat.mul_pos hn (Nat.pow_pos hb)
  | negSucc k => exact hn

theorem round_toEven_bounds (hd : 0 < r.den) :
    (r.round .toEven : ℚ) - 1 / 2 ≤ r.value ∧ r.value ≤ r.round .toEven + 1 / 2 ∧
      (r.round .toEven % 2 = 1 →
        (r.round .toEven : ℚ) - 1 / 2 < r.value ∧ r.value < r.round .toEven + 1 / 2) := by
  have hd' : (0 : ℚ) < r.den := Nat.cast_pos.2 hd
  obtain ⟨h1, h2, h3⟩ := roundDiv_toEven_bounds r.num hd
  rw [round]
  generalize roundDiv r.num r.den .toEven = n at h1 h2 h3
  have h1 : ((2 * n * r.den : ℕ) : ℚ) ≤ ((2 * r.num + r.den : ℕ) : ℚ) := Nat.cast_le.2 h1
  have h2 : ((2 * r.num : ℕ) : ℚ) ≤ ((2 * n * r.den + r.den : ℕ) : ℚ) := Nat.cast_le.2 h2
  push_cast at h1 h2
  rw [value, le_div_iff₀ hd', div_le_iff₀ hd', lt_div_iff₀ hd', div_lt_iff₀ hd']
  refine ⟨by linarith, by linarith, fun ho => ?_⟩
  obtain ⟨h3, h4⟩ := h3 ho
  have h3 : ((2 * n * r.den : ℕ) : ℚ) < ((2 * r.num + r.den : ℕ) : ℚ) := Nat.cast_lt.2 h3
  have h4 : ((2 * r.num : ℕ) : ℚ) < ((2 * n * r.den + r.den : ℕ) : ℚ) := Nat.cast_lt.2 h4
  push_cast at h3 h4
  exact ⟨by linarith, by linarith⟩

/-- The quotient rounds to a number at most one half away, if that is even where it is one half. -/
theorem round_toEven {n : Nat} (hd : 0 < r.den) (hlow : (n : ℚ) - 1 / 2 ≤ r.value)
    (hhigh : r.value ≤ n + 1 / 2)
    (hends : n % 2 = 1 → (n : ℚ) - 1 / 2 < r.value ∧ r.value < n + 1 / 2) :
    r.round .toEven = n := by
  obtain ⟨h1, h2, h3⟩ := round_toEven_bounds hd
  generalize r.round .toEven = k at h1 h2 h3
  -- of two neighbours that are as near, one is odd
  obtain hlt | rfl | hgt := Nat.lt_trichotomy k n
  · have hle : (k : ℚ) + 1 ≤ n := by exact_mod_cast hlt
    have hn : (n : ℚ) ≤ ((k + 1 : ℕ) : ℚ) := by
      push_cast
      linarith
    have hn := Nat.cast_le.1 hn
    obtain ho | ho : k % 2 = 1 ∨ n % 2 = 1 := by omega
    · linarith [(h3 ho).2]
    · linarith [(hends ho).1]
  · rfl
  · have hle : (n : ℚ) + 1 ≤ k := by exact_mod_cast hgt
    have hk : (k : ℚ) ≤ ((n + 1 : ℕ) : ℚ) := by
      push_cast
      linarith
    have hk := Nat.cast_le.1 hk
    obtain ho | ho : k % 2 = 1 ∨ n % 2 = 1 := by omega
    · linarith [(h3 ho).1]
    · linarith [(hends ho).2]

/-! ### Magnitudes -/

theorem reaches_iff (hd : 0 < r.den) (hb : 0 < base) :
    r.reaches base e = true ↔ (base : ℚ) ^ e ≤ r.value := by
  have hb' : (0 : ℚ) < base := Nat.cast_pos.2 hb
  have hs := den_scale_pos hd hb (-e)
  have hv := r.value_scale base (-e)
  rw [zpow_neg, ← div_eq_mul_inv] at hv
  rw [← one_le_div (zpow_pos hb' e), ← hv, value, one_le_div (Nat.cast_pos.2 hs), Nat.cast_le]
  exact decide_eq_true_iff

theorem pow_magnitude_le (base : Nat) (guess : Int) (hd : 0 < r.den) (hb : 0 < base)
    (h : (base : ℚ) ^ (guess - 2) ≤ r.value) :
    (base : ℚ) ^ (r.magnitude base guess) ≤ r.value := by
  unfold magnitude
  split
  · next hr => exact (reaches_iff hd hb).1 hr
  · split
    · next hr => exact (reaches_iff hd hb).1 hr
    · split
      · next hr => exact (reaches_iff hd hb).1 hr
      · split
        · next hr => exact (reaches_iff hd hb).1 hr
        · exact h

theorem lt_pow_magnitude (base : Nat) (guess : Int) (hd : 0 < r.den) (hb : 0 < base)
    (h : r.value < (base : ℚ) ^ (guess + 3)) :
    r.value < (base : ℚ) ^ (r.magnitude base guess + 1) := by
  have hr : ∀ e, ¬ r.reaches base e = true → r.value < (base : ℚ) ^ e := fun e hn =>
    not_le.1 (mt (reaches_iff hd hb).2 hn)
  unfold magnitude
  split
  · rwa [show guess + 2 + 1 = guess + 3 by ring]
  · next h2 =>
    split
    · rw [show guess + 1 + 1 = guess + 2 by ring]
      exact hr _ h2
    · next h1 =>
      split
      · exact hr _ h1
      · next h0 =>
        split
        · rw [show guess - 1 + 1 = guess by ring]
          exact hr _ h0
        · next h3 =>
          rw [show guess - 2 + 1 = guess - 1 by ring]
          exact hr _ h3

theorem value_bounds (hn : 0 < r.num) (hd : 0 < r.den) :
    (2 : ℚ) ^ ((r.num.log2 : ℤ) - r.den.log2 - 1) ≤ r.value ∧
      r.value < (2 : ℚ) ^ ((r.num.log2 : ℤ) - r.den.log2 + 1) := by
  have h2 : (2 : ℚ) ≠ 0 := two_ne_zero
  have hd' : (0 : ℚ) < r.den := Nat.cast_pos.2 hd
  have hnl : ((2 ^ r.num.log2 : ℕ) : ℚ) ≤ r.num := Nat.cast_le.2 (Nat.log2_self_le hn.ne')
  have hnu : (r.num : ℚ) < ((2 ^ (r.num.log2 + 1) : ℕ) : ℚ) := Nat.cast_lt.2 Nat.lt_log2_self
  have hdl : ((2 ^ r.den.log2 : ℕ) : ℚ) ≤ r.den := Nat.cast_le.2 (Nat.log2_self_le hd.ne')
  have hdu : (r.den : ℚ) < ((2 ^ (r.den.log2 + 1) : ℕ) : ℚ) := Nat.cast_lt.2 Nat.lt_log2_self
  push_cast at hnl hnu hdl hdu
  have hpow : ∀ k : ℕ, (0 : ℚ) < 2 ^ k := fun k => pow_pos two_pos k
  constructor
  · rw [value, le_div_iff₀ hd', sub_sub, zpow_sub₀ h2, zpow_natCast, ← Nat.cast_add_one,
      zpow_natCast, div_mul_eq_mul_div, div_le_iff₀ (hpow _)]
    exact mul_le_mul hnl hdu.le hd'.le (Nat.cast_nonneg _)
  · rw [value, div_lt_iff₀ hd', sub_add_eq_add_sub, zpow_sub₀ h2, zpow_natCast, ← Nat.cast_add_one,
      zpow_natCast, div_mul_eq_mul_div, lt_div_iff₀ (hpow _)]
    exact mul_lt_mul hnu hdl (hpow _) (hpow _).le

/-- The binary magnitude is exact. -/
theorem binaryMagnitude_spec (hn : 0 < r.num) (hd : 0 < r.den) :
    (2 : ℚ) ^ r.binaryMagnitude ≤ r.value ∧ r.value < (2 : ℚ) ^ (r.binaryMagnitude + 1) := by
  obtain ⟨h1, h2⟩ := value_bounds hn hd
  constructor
  · have h := pow_magnitude_le 2 ((r.num.log2 : ℤ) - r.den.log2) hd two_pos ?_
    · rwa [Nat.cast_ofNat] at h
    · refine le_trans ?_ h1
      push_cast
      exact zpow_le_zpow_right₀ one_le_two (by omega)
  · have h := lt_pow_magnitude 2 ((r.num.log2 : ℤ) - r.den.log2) hd two_pos ?_
    · rwa [Nat.cast_ofNat] at h
    · apply lt_of_lt_of_le h2
      push_cast
      exact zpow_le_zpow_right₀ one_le_two (by omega)

/-- By `10 ^ 3 < 2 ^ 10`. -/
theorem ten_pow_le {k : ℕ} {a : ℤ} (h : 10 * k ≤ 3 * a) : (10 : ℚ) ^ (k : ℤ) ≤ 2 ^ a := by
  have h10 : (0 : ℚ) ≤ 10 ^ (k : ℤ) := (zpow_pos (by norm_num) _).le
  have h2 : (0 : ℚ) ≤ 2 ^ a := (zpow_pos two_pos a).le
  rw [← pow_le_pow_iff_left₀ h10 h2 three_ne_zero]
  calc ((10 : ℚ) ^ (k : ℤ)) ^ 3 = (10 ^ 3) ^ k := by
        rw [zpow_natCast, ← pow_mul, ← pow_mul, mul_comm]
    _ ≤ (2 ^ 10) ^ k := pow_le_pow_left₀ (by norm_num) (by norm_num) k
    _ = 2 ^ (10 * (k : ℤ)) := by rw [← pow_mul, ← zpow_natCast, Nat.cast_mul, Nat.cast_ofNat]
    _ ≤ 2 ^ (3 * a) := zpow_le_zpow_right₀ one_le_two h
    _ = (2 ^ a) ^ 3 := by rw [mul_comm, zpow_mul]; rfl

/-- By `2 ^ 93 < 10 ^ 28`. -/
theorem ten_zpow_neg_le {k : ℕ} {a : ℤ} (h : -(93 * k) ≤ 28 * a) :
    (10 : ℚ) ^ (-(k : ℤ)) ≤ 2 ^ a := by
  have h10 : (0 : ℚ) ≤ 10 ^ (-(k : ℤ)) := (zpow_pos (by norm_num) _).le
  have h2 : (0 : ℚ) ≤ 2 ^ a := (zpow_pos two_pos a).le
  rw [← pow_le_pow_iff_left₀ h10 h2 (n := 28) (by decide)]
  calc ((10 : ℚ) ^ (-(k : ℤ))) ^ 28 = ((10 ^ 28) ^ k)⁻¹ := by
        rw [zpow_neg, zpow_natCast, inv_pow, ← pow_mul, ← pow_mul, mul_comm]
    _ ≤ ((2 ^ 93) ^ k)⁻¹ :=
        inv_anti₀ (by positivity) (pow_le_pow_left₀ (by norm_num) (by norm_num) k)
    _ = 2 ^ (-(93 * (k : ℤ))) := by
        rw [← pow_mul, zpow_neg, ← zpow_natCast, Nat.cast_mul, Nat.cast_ofNat]
    _ ≤ 2 ^ (28 * a) := zpow_le_zpow_right₀ one_le_two h
    _ = (2 ^ a) ^ 28 := by rw [mul_comm, zpow_mul]; rfl

/-- The decimal magnitude is exact for all magnitudes of doubles. -/
theorem decimalMagnitude_spec (hn : 0 < r.num) (hd : 0 < r.den)
    (hlow : -1400 ≤ (r.num.log2 : ℤ) - r.den.log2) (hhigh : (r.num.log2 : ℤ) - r.den.log2 ≤ 1400) :
    (10 : ℚ) ^ r.decimalMagnitude ≤ r.value ∧ r.value < (10 : ℚ) ^ (r.decimalMagnitude + 1) := by
  obtain ⟨h1, h2⟩ := value_bounds hn hd
  generalize hg : ((r.num.log2 : ℤ) - r.den.log2) * 30103 / 100000 = guess
  have he : r.decimalMagnitude = r.magnitude 10 guess := by rw [decimalMagnitude, hg]
  rw [he]
  constructor
  · have h := pow_magnitude_le 10 guess hd (by decide) ?_
    · rwa [Nat.cast_ofNat] at h
    · refine le_trans ?_ h1
      obtain ⟨k, hk | hk⟩ := Int.eq_nat_or_neg (guess - 2)
      · rw [hk]
        exact ten_pow_le (by omega)
      · rw [hk]
        exact ten_zpow_neg_le (by omega)
  · have h := lt_pow_magnitude 10 guess hd (by decide) ?_
    · rwa [Nat.cast_ofNat] at h
    · apply lt_of_lt_of_le h2
      -- the bounds of the powers of ten are turned around
      rw [← inv_le_inv₀ (zpow_pos (by norm_num) _) (zpow_pos two_pos _), ← zpow_neg, ← zpow_neg]
      obtain ⟨k, hk | hk⟩ := Int.eq_nat_or_neg (guess + 3)
      · rw [hk]
        exact ten_zpow_neg_le (by omega)
      · rw [hk, neg_neg]
        exact ten_pow_le (by omega)

end Ratio

/-! ### Magnitudes of doubles -/

namespace Binary64

theorem value_ratio (m : Nat) (e : Int) : (ratio m e).value = m * 2 ^ e := by
  rw [ratio, Ratio.value_scale, Ratio.value_ofNat, Nat.cast_ofNat]

theorem den_ratio_pos (m : Nat) (e : Int) : 0 < (ratio m e).den :=
  Ratio.den_scale_pos Nat.one_pos two_pos e

end Binary64

end Relief.Number
