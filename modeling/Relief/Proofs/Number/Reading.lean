import Mathlib
import Relief.Number.Decimal
import Relief.Proofs.Number.Quotient

/-!
Which numbers are read as a given double: those in the interval around it whose ends lie halfway to its
neighbours.
-/
namespace Relief.Number

variable {m : Nat} {e : Int} {q : ℚ} {v : Float}

/-- The significands and exponents of doubles. -/
structure Binary64.Canonical (m : Nat) (e : Int) : Prop where
  significand_lt : m < 2 ^ 53
  le_exponent : Binary64.minExponent ≤ e
  exponent_le : e ≤ 971
  normal : Binary64.minExponent < e → 2 ^ 52 ≤ m

/-- How far down the interval around a double reaches, in units of its last place. -/
def lowerGap (m : Nat) (e : Int) : ℚ :=
  if m = 2 ^ 52 ∧ Binary64.minExponent < e then 1 / 4 else 1 / 2

/-- The interval around `m * 2 ^ e`, with its ends if the significand is even. -/
structure Near (m : Nat) (e : Int) (q : ℚ) : Prop where
  le : m - lowerGap m e ≤ q / 2 ^ e
  ge : q / 2 ^ e ≤ m + 1 / 2
  strict : m % 2 = 1 → m - lowerGap m e < q / 2 ^ e ∧ q / 2 ^ e < m + 1 / 2

theorem lowerGap_le (m : Nat) (e : Int) : lowerGap m e ≤ 1 / 2 := by
  unfold lowerGap
  split <;> norm_num

theorem quarter_le_lowerGap (m : Nat) (e : Int) : 1 / 4 ≤ lowerGap m e := by
  unfold lowerGap
  split <;> norm_num

theorem Near.half_le (h : Near m e q) (hm : 0 < m) : 1 / 2 ≤ q / 2 ^ e := by
  have h1 : (1 : ℚ) ≤ m := Nat.one_le_cast.2 hm
  have h2 := lowerGap_le m e
  have h3 := h.le
  linarith

theorem Near.pos (h : Near m e q) (hm : 0 < m) : 0 < q := by
  have h1 := h.half_le hm
  have h2 : (0 : ℚ) < 2 ^ e := zpow_pos two_pos e
  have h3 : 0 < q / 2 ^ e := by linarith
  rwa [div_pos_iff_of_pos_right h2] at h3

/-! ### The nearest word -/

namespace Binary64

theorem Canonical.lt_of_near (hc : Canonical m e) (h : Near m e q) : q < 2 ^ (e + 53) := by
  have h2 : (0 : ℚ) < 2 ^ e := zpow_pos two_pos e
  have hm : (m : ℚ) ≤ 2 ^ 53 - 1 := by
    have : m + 1 ≤ 2 ^ 53 := hc.significand_lt
    have : ((m + 1 : ℕ) : ℚ) ≤ ((2 ^ 53 : ℕ) : ℚ) := Nat.cast_le.2 this
    push_cast at this
    linarith
  have hx := h.ge
  have : q / 2 ^ e < 2 ^ 53 := by linarith
  rw [div_lt_iff₀ h2] at this
  rwa [zpow_add₀ two_ne_zero, mul_comm]

/-- Only below a power of two may the exponent of the nearer double be another one. -/
theorem Canonical.eq_of_lt (hc : Canonical m e) (h : Near m e q) (he : minExponent < e)
    (hq : q / 2 ^ e < 2 ^ 52) : m = 2 ^ 52 ∧ 2 ^ 52 - 1 / 4 ≤ q / 2 ^ e := by
  have hn : 2 ^ 52 ≤ m := hc.normal he
  have hm : m = 2 ^ 52 := by
    by_contra hne
    have h1 : 2 ^ 52 + 1 ≤ m := by omega
    have h1 : ((2 ^ 52 + 1 : ℕ) : ℚ) ≤ m := Nat.cast_le.2 h1
    have h2 := h.le
    have h3 := lowerGap_le m e
    push_cast at h1
    linarith
  subst hm
  have hle := h.le
  rw [lowerGap, if_pos ⟨rfl, he⟩] at hle
  push_cast at hle
  exact ⟨rfl, hle⟩

end Binary64

open Binary64 in
/-- The word that is found for a number in the interval around a double is that of the double. -/
theorem Ratio.toWord_of_near {r : Ratio} (hc : Canonical m e) (hm : 0 < m) (hd : 0 < r.den)
    (h : Near m e r.value) : r.toWord = (e - minExponent).toNat * 2 ^ 52 + m := by
  have h2 : ∀ k : ℤ, (0 : ℚ) < 2 ^ k := zpow_pos two_pos
  have hq := h.pos hm
  have hn : 0 < r.num := by
    by_contra hz
    rw [Ratio.value, Nat.eq_zero_of_not_pos hz, Nat.cast_zero, zero_div] at hq
    exact lt_irrefl _ hq
  obtain ⟨hb1, hb2⟩ := r.binaryMagnitude_spec hn hd
  have hu : r.binaryMagnitude < e + 53 :=
    (zpow_lt_zpow_iff_right₀ one_lt_two).1 (lt_of_le_of_lt hb1 (hc.lt_of_near h))
  have hle := hc.le_exponent
  have hge := hc.exponent_le
  have hlt := hc.significand_lt
  have hs : ∀ k : ℤ, (r.scale 2 (-k)).value = r.value / 2 ^ k := fun k => by
    rw [value_scale, Nat.cast_ofNat, zpow_neg, ← div_eq_mul_inv]
  have hds : ∀ k : ℤ, 0 < (r.scale 2 k).den := den_scale_pos hd two_pos
  simp only [toWord, Nat.pow_eq, hn.ne', if_false]
  obtain hx | ⟨he, hx⟩ : (e = minExponent ∨ 2 ^ 52 ≤ r.value / 2 ^ e) ∨
      (minExponent < e ∧ r.value / 2 ^ e < 2 ^ 52) := by
    obtain hx | hx := le_or_gt (2 ^ 52) (r.value / 2 ^ e)
    · exact .inl (.inr hx)
    · obtain he | he := hle.eq_or_lt
      · exact .inl (.inl he.symm)
      · exact .inr ⟨he, hx⟩
  · have hmax : max (r.binaryMagnitude - 52) minExponent = e := by
      obtain rfl | hx := hx
      · omega
      · rw [le_div_iff₀ (h2 e), ← zpow_natCast, ← zpow_add₀ two_ne_zero] at hx
        have := (zpow_lt_zpow_iff_right₀ one_lt_two).1 (lt_of_le_of_lt hx hb2)
        push_cast at this
        omega
    have hround : (r.scale 2 (-e)).round .toEven = m := by
      have hg := lowerGap_le m e
      have h1 := h.le
      refine round_toEven (hds _) ?_ ?_ fun ho => ?_
      · rw [hs]
        linarith
      · rw [hs]
        exact h.ge
      · obtain ⟨h3, h4⟩ := h.strict ho
        rw [hs]
        exact ⟨by linarith, h4⟩
    rw [hmax, hround]
    have : minExponent = -1074 := rfl
    omega
  · obtain ⟨rfl, hx'⟩ := hc.eq_of_lt h he hx
    have hmax : max (r.binaryMagnitude - 52) minExponent = e - 1 := by
      have h51 : (2 : ℚ) ^ (e + 51) ≤ r.value := by
        rw [zpow_add₀ two_ne_zero, mul_comm, ← le_div_iff₀ (h2 e)]
        norm_num
        linarith
      have h52 : r.value < (2 : ℚ) ^ (e + 52) := by
        rw [zpow_add₀ two_ne_zero, mul_comm, ← div_lt_iff₀ (h2 e)]
        exact hx
      have h3 := (zpow_lt_zpow_iff_right₀ one_lt_two).1 (lt_of_le_of_lt h51 hb2)
      have h4 := (zpow_lt_zpow_iff_right₀ one_lt_two).1 (lt_of_le_of_lt hb1 h52)
      omega
    have hround : (r.scale 2 (-(e - 1))).round .toEven = 2 ^ 53 := by
      have hv : r.value / 2 ^ (e - 1) = 2 * (r.value / 2 ^ e) := by
        rw [zpow_sub_one₀ two_ne_zero]
        field_simp
      refine round_toEven (hds _) ?_ ?_ fun ho => ?_
      · rw [hs, hv]
        push_cast
        linarith
      · rw [hs, hv]
        push_cast
        linarith
      · norm_num at ho
    rw [hmax, hround]
    have : minExponent = -1074 := rfl
    omega

/-! ### Doubles -/

/-- A finite double without a sign is its significand, with an exponent above it. -/
theorem Binary64.word_of_ofWord {w : Nat} (hw : w < 2 ^ 64)
    (h : Binary64.ofWord w = .finite false m e) :
    Canonical m e ∧ w = (e - minExponent).toNat * 2 ^ 52 + m := by
  have hmin : minExponent = -1074 := rfl
  simp only [Binary64.ofWord, Nat.pow_eq] at h
  split at h
  · split at h <;> cases h
  · next hinf =>
    split at h
    · next h0 =>
      injection h with hs hm he
      subst hm he
      rw [decide_eq_false_iff_not] at hs
      exact ⟨⟨by omega, by omega, by omega, by omega⟩, by omega⟩
    · next h0 =>
      injection h with hs hm he
      subst hm he
      rw [decide_eq_false_iff_not] at hs
      exact ⟨⟨by omega, by omega, by omega, by omega⟩, by omega⟩

theorem Binary64.canonical_of_ofFloat (h : Binary64.ofFloat v = .finite false m e) :
    Canonical m e :=
  (word_of_ofWord v.toBits.toNat_lt h).1

theorem Ratio.toFloat_of_word {r : Ratio} (h : r.toWord = v.toBits.toNat) :
    r.toFloat false = v := by
  rw [toFloat, if_neg Bool.false_ne_true, Nat.zero_add, h, Nat.toUInt64_eq, UInt64.ofNat_toNat,
    Float.ofBits_toBits]

/-- A number in the interval around a double is read as that double. -/
theorem Ratio.toFloat_of_near {r : Ratio} (hv : Binary64.ofFloat v = .finite false m e)
    (hm : 0 < m) (hd : 0 < r.den) (h : Near m e r.value) : r.toFloat false = v := by
  obtain ⟨hc, hw⟩ := Binary64.word_of_ofWord v.toBits.toNat_lt hv
  exact toFloat_of_word ((toWord_of_near hc hm hd h).trans hw.symm)

namespace Decimal

open Binary64 (minExponent)

variable {d : Decimal}

def value (d : Decimal) : ℚ := d.coefficient * (10 : ℚ) ^ d.exponent

theorem value_ratio (d : Decimal) : d.ratio.value = d.value := by
  rw [ratio, Ratio.value_scale, Ratio.value_ofNat]
  rfl

theorem value_lt_of_exponent (h : d.exponent + d.coefficient.log2 < -overflowExponent) :
    d.value < 2 ^ (-1075 : ℤ) := by
  have hc : (d.coefficient : ℚ) < 10 ^ ((d.coefficient.log2 : ℤ) + 1) := by
    have h2 : ((d.coefficient : ℕ) : ℚ) < ((2 ^ (d.coefficient.log2 + 1) : ℕ) : ℚ) :=
      Nat.cast_lt.2 Nat.lt_log2_self
    push_cast at h2
    apply lt_of_lt_of_le h2
    rw [← Nat.cast_add_one, zpow_natCast]
    exact pow_le_pow_left₀ two_pos.le (by norm_num) _
  have hp : (0 : ℚ) < 10 ^ d.exponent := zpow_pos (by norm_num) _
  have ho : overflowExponent = 400 := rfl
  calc d.value < 10 ^ ((d.coefficient.log2 : ℤ) + 1) * 10 ^ d.exponent :=
        mul_lt_mul_of_pos_right hc hp
    _ = 10 ^ ((d.coefficient.log2 : ℤ) + 1 + d.exponent) := (zpow_add₀ (by norm_num) _ _).symm
    _ ≤ 10 ^ (-((400 : ℕ) : ℤ)) := zpow_le_zpow_right₀ (by norm_num) (by omega)
    _ ≤ 2 ^ (-1075 : ℤ) := Ratio.ten_zpow_neg_le (by norm_num)

theorem le_value_of_exponent (hc : d.coefficient ≠ 0) (h : overflowExponent ≤ d.exponent) :
    2 ^ (1024 : ℤ) ≤ d.value := by
  have h1 : (1 : ℚ) ≤ d.coefficient := Nat.one_le_cast.2 (Nat.pos_of_ne_zero hc)
  calc (2 : ℚ) ^ (1024 : ℤ) ≤ 2 ^ ((3 * 400 : ℕ) : ℤ) :=
        zpow_le_zpow_right₀ one_le_two (by norm_num)
    _ = (2 ^ 3) ^ 400 := by rw [zpow_natCast, pow_mul]
    _ ≤ 10 ^ 400 := pow_le_pow_left₀ (by norm_num) (by norm_num) 400
    _ = 10 ^ (400 : ℤ) := (zpow_natCast 10 400).symm
    _ ≤ 10 ^ d.exponent := zpow_le_zpow_right₀ (by norm_num) h
    _ ≤ d.value := le_mul_of_one_le_left (zpow_pos (by norm_num) _).le h1

/-- The shortcuts for very great and very small decimals are never taken near a finite double. -/
theorem toFloat_of_near (hv : Binary64.ofFloat v = .finite false m e) (hm : 0 < m)
    (h : Near m e d.value) : d.toFloat false = v := by
  have hc := Binary64.canonical_of_ofFloat hv
  have hle : minExponent ≤ e := hc.le_exponent
  have hge := hc.exponent_le
  have hmin : minExponent = -1074 := rfl
  have h0 : d.coefficient ≠ 0 := by
    intro h0
    have hp := h.pos hm
    rw [value, h0, Nat.cast_zero, zero_mul] at hp
    exact lt_irrefl _ hp
  have h1 : ¬ overflowExponent ≤ d.exponent := by
    intro h1
    have hlt : d.value < 2 ^ (e + 53) := hc.lt_of_near h
    have h2 := lt_of_le_of_lt (le_value_of_exponent h0 h1) hlt
    have := (zpow_lt_zpow_iff_right₀ one_lt_two).1 h2
    omega
  have h2 : ¬ d.exponent + d.coefficient.log2 < -overflowExponent := by
    intro h2
    have hhalf := h.half_le hm
    rw [le_div_iff₀ (zpow_pos two_pos e)] at hhalf
    have h3 : (2 : ℚ) ^ (e - 1) < 2 ^ (-1075 : ℤ) := by
      rw [zpow_sub_one₀ two_ne_zero]
      linarith [value_lt_of_exponent h2]
    have := (zpow_lt_zpow_iff_right₀ one_lt_two).1 h3
    omega
  have hd : 0 < d.ratio.den := Ratio.den_scale_pos Nat.one_pos (by decide) _
  rw [toFloat, if_neg h0, if_neg h1, if_neg h2]
  exact Ratio.toFloat_of_near hv hm hd (by rwa [value_ratio])

theorem toFloat_of_zero (hv : Binary64.ofFloat v = .finite false 0 e) (h : d.value = 0) :
    d.toFloat false = v := by
  have h0 : d.coefficient = 0 := by
    have h10 : (10 : ℚ) ^ d.exponent ≠ 0 := (zpow_pos (by norm_num) _).ne'
    exact Nat.cast_eq_zero.1 ((mul_eq_zero.1 h).resolve_right h10)
  obtain ⟨hc, hw⟩ := Binary64.word_of_ofWord v.toBits.toNat_lt hv
  have he : e = minExponent := by
    by_contra hne
    have := hc.normal (lt_of_le_of_ne hc.le_exponent (Ne.symm hne))
    omega
  rw [toFloat, if_pos h0]
  apply Ratio.toFloat_of_word
  rw [hw, he]
  simp [Ratio.toWord]

end Decimal

end Relief.Number
