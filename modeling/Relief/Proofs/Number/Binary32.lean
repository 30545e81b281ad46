import Mathlib
import Relief.Number.Binary32
import Relief.Proofs.Number.Integer

/-!
Which doubles have a finite number of 32 bits nearest to them: those of a magnitude below the middle
between the greatest such number and the power of two after it.
-/
namespace Relief.Number

open Float.Model

namespace Ratio

variable {r : Ratio}

/-- Far from the greatest double nothing is rounded to infinity. -/
theorem toWord_lt (hd : 0 < r.den) (h : r.value < 2 ^ (1023 : ℤ)) : r.toWord < 2047 * 2 ^ 52 := by
  rw [toWord]
  split
  · norm_num
  · next hz =>
    have hn := Nat.pos_of_ne_zero hz
    have hb : r.binaryMagnitude < 1023 := (zpow_lt_zpow_iff_right₀ one_lt_two).1
      ((binaryMagnitude_spec hn hd).1.trans_lt h)
    have hle := round_units_le hn hd 52 (le_max_left (r.binaryMagnitude - 52) Binary64.minExponent)
    have hmin : Binary64.minExponent = -1074 := rfl
    dsimp only
    generalize Ratio.round _ _ = n at hle
    rw [Nat.pow_eq]
    omega

end Ratio

namespace Binary32

variable {r : Ratio} {v : Float}

/-- A quotient is rounded to infinity from halfway on. -/
theorem nearest_lt_iff (hd : 0 < r.den) : nearest r < 255 * 2 ^ 23 ↔ r.value < 2 ^ 128 - 2 ^ 103 := by
  obtain hz | hn := Nat.eq_zero_or_pos r.num
  · rw [nearest, if_pos hz, Ratio.value, hz]
    norm_num
  obtain ⟨hlow, hhigh⟩ := Ratio.binaryMagnitude_spec hn hd
  have hle := Ratio.round_units_le hn hd 23 (le_max_left (r.binaryMagnitude - 23) minExponent)
  have hmin : minExponent = -149 := rfl
  rw [nearest, if_neg hn.ne']
  dsimp only
  rw [Nat.pow_eq]
  obtain hb | hb | hb := Int.lt_trichotomy r.binaryMagnitude 127
  · have hv : r.value < 2 ^ 128 - 2 ^ 103 := by
      have hp : (2 : ℚ) ^ (r.binaryMagnitude + 1) ≤ 2 ^ (127 : ℤ) :=
        zpow_le_zpow_right₀ one_le_two (by omega)
      exact (hhigh.trans_le hp).trans (by norm_num)
    refine iff_of_true ?_ hv
    generalize Ratio.round _ _ = n at hle
    omega
  · -- only here does the significand tell
    have he : max (r.binaryMagnitude - 23) minExponent = 104 := by omega
    rw [he]
    have hd' := Ratio.den_scale_pos hd two_pos (-104)
    have hs : (r.scale 2 (-104)).value = r.value / 2 ^ 104 := by
      rw [Ratio.value_scale, div_eq_mul_inv]
      rfl
    have hiff : (r.scale 2 (-104)).round .toEven < 2 ^ 24 ↔ r.value < 2 ^ 128 - 2 ^ 103 := by
      constructor
      · intro h
        by_contra hv
        refine absurd h (Nat.not_lt.2 (Ratio.le_round hd' (by norm_num) ?_))
        rw [hs, le_div_iff₀ (by norm_num)]
        push_cast
        linarith
      · intro hv
        refine Nat.lt_of_le_of_lt (Ratio.round_le (k := 2 ^ 24 - 1) hd' ?_) (by norm_num)
        rw [hs, div_lt_iff₀ (by norm_num)]
        norm_num
        linarith
    rw [← hiff, hmin]
    omega
  · have hv : ¬ r.value < 2 ^ 128 - 2 ^ 103 := by
      have hp : (2 : ℚ) ^ (128 : ℤ) ≤ 2 ^ r.binaryMagnitude :=
        zpow_le_zpow_right₀ one_le_two (by omega)
      exact not_lt.2 (le_trans (by norm_num) (hp.trans hlow))
    have hge := Ratio.le_round_units hn hd (p := 23) (by norm_num)
      (e := max (r.binaryMagnitude - 23) minExponent) (max_eq_left (by omega))
    refine iff_of_false ?_ hv
    generalize Ratio.round _ _ = n at hge
    omega

theorem nearest_le (r : Ratio) : nearest r ≤ 255 * 2 ^ 23 := by
  rw [nearest]
  split
  · exact Nat.zero_le _
  · exact Nat.min_le_right _ _

/-- The double of a significand of 32 bits is finite. -/
theorem isFinite_ratio {m : Nat} {e : Int} (hm : m < 2 ^ 24) (he : e ≤ 104) (negative : Bool) :
    ((Binary64.ratio m e).toFloat negative).isFinite = true := by
  refine (Ratio.isFinite_toFloat _ _).2 (Ratio.toWord_lt (Binary64.den_ratio_pos m e) ?_)
  have hm : (m : ℚ) ≤ 2 ^ 24 := by exact_mod_cast hm.le
  have he : (2 : ℚ) ^ e ≤ 2 ^ (104 : ℤ) := zpow_le_zpow_right₀ one_le_two he
  calc (Binary64.ratio m e).value = m * 2 ^ e := Binary64.value_ratio m e
    _ ≤ 2 ^ 24 * 2 ^ (104 : ℤ) := by gcongr
    _ < 2 ^ (1023 : ℤ) := by
      rw [← zpow_natCast, ← zpow_add₀ two_ne_zero]
      exact zpow_lt_zpow_right₀ one_lt_two (by norm_num)

/-- A word stands for a finite number unless it is the greatest. -/
theorem isFinite_toFloat_withSign {n : Nat} (hn : n ≤ 255 * 2 ^ 23) (negative : Bool) :
    (toFloat (withSign negative n)).isFinite = true ↔ n < 255 * 2 ^ 23 := by
  have hw : (withSign negative n).toNat = (if negative then 2 ^ 31 else 0) + n := by
    rw [withSign, UInt32.toNat_ofNat_of_lt', Nat.pow_eq]
    change _ < 2 ^ 32
    rw [Nat.pow_eq]
    split <;> omega
  have hb : (withSign negative n).toNat / 2 ^ 23 % 2 ^ 8 = n / 2 ^ 23 := by
    rw [hw]
    split <;> omega
  have hf : (withSign negative n).toNat % 2 ^ 23 = n % 2 ^ 23 := by
    rw [hw]
    split <;> omega
  have hmin : minExponent = -149 := rfl
  simp only [toFloat, Nat.pow_eq, hb, hf]
  obtain rfl | hlt := Nat.eq_or_lt_of_le hn
  · refine iff_of_false ?_ (Nat.lt_irrefl _)
    rw [if_pos (by norm_num), if_pos (by norm_num)]
    split <;> decide
  · refine iff_of_true ?_ hlt
    rw [if_neg (by omega)]
    split
    · exact isFinite_ratio (by omega) (by omega) _
    · exact isFinite_ratio (by omega) (by omega) _

/-! ### Doubles -/

/-- From this magnitude on doubles are infinite in 32 bits. It is the middle between the greatest finite
number and the power of two after it. -/
def overflowBound : Float := 340282356779733661637539395458142568448

theorem ofFloat_overflowBound :
    Binary64.ofFloat overflowBound = .finite false (2 ^ 53 - 2 ^ 28) 75 := by
  decide +kernel

theorem isFinite_ofFloat_iff : (toFloat (ofFloat v)).isFinite = true ↔ v.abs < overflowBound := by
  cases hv : Binary64.ofFloat v with
  | nan =>
    have hn : ¬ v.abs < overflowBound := by
      rw [lt_iff_compare, fields_eq_unpacked, ofFloat_abs, hv]
      rintro ⟨⟩
    rw [ofFloat, hv]
    exact iff_of_false (by decide) hn
  | infinite s =>
    have hn : ¬ v.abs < overflowBound := by
      rw [lt_iff_compare, fields_eq_unpacked, ofFloat_abs, hv]
      change ¬ UnpackedFloat.compare (.infinity .positive) _ = _
      decide +kernel
    rw [ofFloat, hv]
    exact iff_of_false (mt (isFinite_toFloat_withSign le_rfl s).1 (Nat.lt_irrefl _)) hn
  | finite s m e =>
    have hb : ((2 ^ 53 - 2 ^ 28 : ℕ) : ℚ) * 2 ^ (75 : ℤ) = 2 ^ 128 - 2 ^ 103 := by norm_num
    rw [ofFloat, hv, abs_lt_iff_value hv ofFloat_overflowBound (by decide), hb, ← Binary64.value_ratio]
    exact (isFinite_toFloat_withSign (nearest_le _) s).trans
      (nearest_lt_iff (Binary64.den_ratio_pos m e))

theorem isFinite_of_abs_lt (h : v.abs < overflowBound) : v.isFinite = true := by
  have hf := isFinite_ofFloat_iff.2 h
  rw [isFinite_iff]
  cases hv : Binary64.ofFloat v with
  | finite s m e => exact ⟨s, m, e, rfl⟩
  | nan =>
    rw [ofFloat, hv] at hf
    exact absurd hf (by decide)
  | infinite s =>
    rw [ofFloat, hv] at hf
    exact absurd ((isFinite_toFloat_withSign le_rfl s).1 hf) (Nat.lt_irrefl _)

end Binary32

end Relief.Number
