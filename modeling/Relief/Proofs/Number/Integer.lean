import Mathlib
import Relief.Number.Binary64
import Relief.Proofs.Number.Numeral

/-!
Which integers have a nearest double: those below the middle between the greatest finite double and the
power of two after it.
-/
namespace Relief.Number

variable {v : Float} {r : Ratio}

/-! ### Finite doubles -/

theorem unpacked_isFinite (b : Binary64) :
    b.unpacked.isFinite = true ↔ ∃ s m e, b = .finite s m e := by
  cases b with
  | nan => exact ⟨nofun, nofun⟩
  | infinite s => exact ⟨nofun, nofun⟩
  | finite s m e =>
    refine ⟨fun _ => ⟨s, m, e, rfl⟩, fun _ => ?_⟩
    rw [Binary64.unpacked]
    split <;> rfl

theorem isFinite_iff : v.isFinite = true ↔ ∃ s m e, Binary64.ofFloat v = .finite s m e := by
  change (fields v).isFinite = true ↔ _
  rw [fields_eq_unpacked, unpacked_isFinite]

theorem ofWord_isFinite (w : Nat) :
    (∃ s m e, Binary64.ofWord w = .finite s m e) ↔ w / 2 ^ 52 % 2 ^ 11 ≠ 2047 := by
  simp only [Binary64.ofWord, Nat.pow_eq]
  by_cases h : w / 2 ^ 52 % 2 ^ 11 = 2047
  · simp only [h, if_true, ne_eq, not_true_eq_false, iff_false]
    rintro ⟨s, m, e, he⟩
    split at he <;> cases he
  · simp only [h, if_false, ne_eq, not_false_eq_true, iff_true]
    split <;> exact ⟨_, _, _, rfl⟩

/-- A quotient is rounded to infinity if its word is as great as words can be. -/
theorem Ratio.isFinite_toFloat (r : Ratio) (negative : Bool) :
    (r.toFloat negative).isFinite = true ↔ r.toWord < 2047 * 2 ^ 52 := by
  have hw := r.toWord_le
  have hn : ((if negative then Nat.pow 2 63 else 0) + r.toWord).toUInt64.toNat =
      (if negative then 2 ^ 63 else 0) + r.toWord := by
    rw [Nat.toUInt64_eq, UInt64.toNat_ofNat_of_lt', Nat.pow_eq]
    change _ < 2 ^ 64
    rw [Nat.pow_eq]
    split <;> omega
  rw [isFinite_iff, toFloat, ofFloat_ofBits, hn, ofWord_isFinite]
  cases negative with
  | false =>
    rw [if_neg Bool.false_ne_true]
    omega
  | true =>
    rw [if_pos rfl]
    omega

/-! ### Rounding up to a power of two -/

/-- The middle between the greatest finite double and the power of two after it. -/
def overflowBound : Nat := (2 ^ 54 - 1) * 2 ^ 970

namespace Ratio

theorem round_le {k : Nat} (hd : 0 < r.den) (h : r.value < k + 1 / 2) : r.round .toEven ≤ k := by
  obtain ⟨h1, -⟩ := round_toEven_bounds hd
  have hlt : (r.round .toEven : ℚ) < ((k + 1 : ℕ) : ℚ) := by
    push_cast
    linarith
  exact Nat.lt_succ_iff.1 (Nat.cast_lt.1 hlt)

theorem le_round {k : Nat} (hd : 0 < r.den) (hk : k % 2 = 0) (h : (k : ℚ) - 1 / 2 ≤ r.value) :
    k ≤ r.round .toEven := by
  obtain ⟨-, h2, h3⟩ := round_toEven_bounds hd
  generalize r.round .toEven = n at h2 h3
  by_contra hlt
  have hle : (n : ℚ) + 1 ≤ k := by exact_mod_cast not_le.1 hlt
  have hk' : (k : ℚ) ≤ ((n + 1 : ℕ) : ℚ) := by
    push_cast
    linarith
  have hk' := Nat.cast_le.1 hk'
  linarith [(h3 (by omega)).2]

/-- A quotient in units of which at most `2 ^ p` make up its leading power of two. -/
theorem round_units_le (hn : 0 < r.num) (hd : 0 < r.den) (p : Nat) {e : Int}
    (he : r.binaryMagnitude - p ≤ e) : (r.scale 2 (-e)).round .toEven ≤ 2 ^ (p + 1) := by
  apply round_le (den_scale_pos hd two_pos _)
  have hlt := mul_lt_mul_of_pos_right (binaryMagnitude_spec hn hd).2
    (zpow_pos (two_pos (α := ℚ)) (-e))
  rw [← zpow_add₀ two_ne_zero] at hlt
  have hle : (2 : ℚ) ^ (r.binaryMagnitude + 1 + -e) ≤ 2 ^ ((p + 1 : ℕ) : ℤ) :=
    zpow_le_zpow_right₀ one_le_two (by push_cast; omega)
  rw [zpow_natCast] at hle
  rw [value_scale]
  push_cast
  linarith

/-- A quotient in units of which exactly `2 ^ p` make up its leading power of two. -/
theorem le_round_units (hn : 0 < r.num) (hd : 0 < r.den) {p : Nat} (hp : 0 < p) {e : Int}
    (he : e = r.binaryMagnitude - p) : 2 ^ p ≤ (r.scale 2 (-e)).round .toEven := by
  apply le_round (den_scale_pos hd two_pos _) (Nat.mod_eq_zero_of_dvd (dvd_pow_self 2 hp.ne'))
  have hle := mul_le_mul_of_nonneg_right (binaryMagnitude_spec hn hd).1
    (zpow_pos (two_pos (α := ℚ)) (-e)).le
  rw [← zpow_add₀ two_ne_zero, he, neg_sub, add_sub_cancel, zpow_natCast] at hle
  rw [value_scale, he, neg_sub]
  push_cast
  linarith

/-! ### Integers -/

variable {n : Nat}

theorem binaryMagnitude_ofNat (hn : 0 < n) : (ofNat n).binaryMagnitude = n.log2 := by
  obtain ⟨h1, h2⟩ := (ofNat n).binaryMagnitude_spec hn Nat.one_pos
  rw [value_ofNat] at h1 h2
  have h3 : (2 : ℚ) ^ (n.log2 : ℤ) ≤ n := by
    rw [zpow_natCast]
    exact_mod_cast Nat.log2_self_le hn.ne'
  have h4 : (n : ℚ) < (2 : ℚ) ^ ((n.log2 : ℤ) + 1) := by
    have : n < 2 ^ (n.log2 + 1) := Nat.lt_log2_self
    rw [← Nat.cast_add_one, zpow_natCast]
    exact_mod_cast this
  have h5 := (zpow_lt_zpow_iff_right₀ one_lt_two).1 (lt_of_le_of_lt h1 h4)
  have h6 := (zpow_lt_zpow_iff_right₀ one_lt_two).1 (lt_of_le_of_lt h3 h2)
  omega

/-- The significand of the double nearest to a positive integer, before it is carried. -/
def significand (n : Nat) : Nat := ((ofNat n).scale 2 (52 - n.log2)).round .toEven

theorem toWord_ofNat (hn : 0 < n) :
    (ofNat n).toWord = min ((n.log2 + 1022) * 2 ^ 52 + significand n) (2047 * 2 ^ 52) := by
  have he : max ((n.log2 : ℤ) - 52) Binary64.minExponent = n.log2 - 52 := by
    have : Binary64.minExponent = -1074 := rfl
    omega
  have hw : ((n.log2 : ℤ) - 52 - Binary64.minExponent).toNat = n.log2 + 1022 := by
    have : Binary64.minExponent = -1074 := rfl
    omega
  have hz : ¬ (ofNat n).num = 0 := hn.ne'
  simp only [toWord, hz, if_false, binaryMagnitude_ofNat hn, he, hw, neg_sub, Nat.pow_eq]
  rfl

theorem value_significand (n : Nat) :
    ((ofNat n).scale 2 (52 - n.log2)).value = n * 2 ^ (52 - (n.log2 : ℤ)) := by
  rw [value_scale, value_ofNat, Nat.cast_ofNat]

theorem den_significand_pos (n : Nat) : 0 < ((ofNat n).scale 2 (52 - n.log2)).den :=
  den_scale_pos Nat.one_pos two_pos _

theorem significand_le (hn : 0 < n) : significand n ≤ 2 ^ 53 := by
  have hb := binaryMagnitude_ofNat hn
  have h := round_units_le (r := ofNat n) hn Nat.one_pos 52 (e := n.log2 - 52) (by omega)
  rwa [neg_sub] at h

theorem le_significand (hn : 0 < n) : 2 ^ 52 ≤ significand n := by
  have hb := binaryMagnitude_ofNat hn
  have h := le_round_units (r := ofNat n) hn Nat.one_pos (p := 52) (by decide) (e := n.log2 - 52) (by omega)
  rwa [neg_sub] at h

/-- Where the exponent is the greatest, the significand tells. -/
theorem significand_lt_iff (hl : n.log2 = 1023) : significand n < 2 ^ 53 ↔ n < overflowBound := by
  have hv : (n : ℚ) * 2 ^ (52 - (n.log2 : ℤ)) = n / 2 ^ 971 := by
    rw [hl, div_eq_mul_inv, ← zpow_natCast, ← zpow_neg]
    rfl
  have hb : (overflowBound : ℚ) / 2 ^ 971 = 2 ^ 53 - 1 / 2 := by
    have hs : (2 : ℚ) ^ 971 = 2 ^ 970 * 2 := pow_succ 2 970
    rw [overflowBound, Nat.cast_mul, Nat.cast_pow, Nat.cast_ofNat, hs, ← div_div,
      mul_div_cancel_right₀ _ (pow_ne_zero _ two_ne_zero)]
    norm_num
  have hp : (0 : ℚ) < 2 ^ 971 := pow_pos two_pos _
  constructor
  · intro h
    by_contra hn
    have hle : (overflowBound : ℚ) / 2 ^ 971 ≤ n / 2 ^ 971 :=
      div_le_div_of_nonneg_right (by exact_mod_cast not_lt.1 hn) hp.le
    apply absurd h
    apply not_lt.2
    apply le_round (den_significand_pos n) (by norm_num)
    rw [hb] at hle
    rwa [value_significand, hv, Nat.cast_pow, Nat.cast_ofNat]
  · intro h
    have hlt : (n : ℚ) / 2 ^ 971 < overflowBound / 2 ^ 971 :=
      div_lt_div_of_pos_right (by exact_mod_cast h) hp
    apply Nat.lt_of_le_of_lt (m := 2 ^ 53 - 1) ?_ (by norm_num)
    apply round_le (den_significand_pos n)
    rw [hb] at hlt
    rw [value_significand, hv]
    apply lt_of_lt_of_eq hlt
    norm_num

/-- The word is the greatest from the bound on. -/
theorem toWord_lt_iff (n : Nat) : (ofNat n).toWord < 2047 * 2 ^ 52 ↔ n < overflowBound := by
  have hb : 2 ^ 1023 ≤ overflowBound := by
    rw [overflowBound, show 1023 = 53 + 970 by rfl, pow_add]
    exact Nat.mul_le_mul_right _ (by norm_num)
  have hb' : overflowBound < 2 ^ 1024 := by
    have hlt : ∀ p : Nat, 0 < p → (2 ^ 54 - 1) * p < 2 ^ 54 * p := fun p hp => by omega
    rw [overflowBound, show 1024 = 54 + 970 by rfl, pow_add]
    exact hlt _ (pow_pos two_pos 970)
  obtain rfl | hn := n.eq_zero_or_pos
  · refine ⟨fun _ => Nat.lt_of_lt_of_le (pow_pos two_pos 1023) hb, fun _ => ?_⟩
    have hz : (ofNat 0).toWord = 0 := rfl
    rw [hz]
    norm_num
  have hle := significand_le hn
  have hge := le_significand hn
  rw [toWord_ofNat hn]
  obtain hl | hl | hl := Nat.lt_trichotomy n.log2 1023
  · have : n < overflowBound := by
      have hlt : n < 2 ^ (n.log2 + 1) := Nat.lt_log2_self
      exact (hlt.trans_le (pow_le_pow_right₀ one_le_two (by omega))).trans_le hb
    exact ⟨fun _ => this, fun _ => by omega⟩
  · rw [← significand_lt_iff hl, hl]
    omega
  · have : overflowBound ≤ n := by
      have hlog := Nat.log2_self_le hn.ne'
      exact hb'.le.trans ((pow_le_pow_right₀ one_le_two (by omega)).trans hlog)
    exact ⟨fun h => by omega, fun h => absurd h (Nat.not_lt.2 this)⟩

end Ratio

/-- An integer has a nearest double exactly if it is below the bound. -/
theorem floatOfInt?_eq_none_iff (n : Int) : floatOfInt? n = none ↔ overflowBound ≤ n.natAbs := by
  have h := Ratio.isFinite_toFloat (Ratio.ofNat n.natAbs) (n < 0)
  rw [Ratio.toWord_lt_iff] at h
  rw [floatOfInt?]
  by_cases hf : ((Ratio.ofNat n.natAbs).toFloat (n < 0)).isFinite = true
  · rw [if_pos hf]
    exact ⟨nofun, fun hb => absurd (h.1 hf) (Nat.not_lt.2 hb)⟩
  · rw [if_neg hf]
    exact ⟨fun _ => Nat.not_lt.1 (mt h.2 hf), fun _ => rfl⟩

end Relief.Number
