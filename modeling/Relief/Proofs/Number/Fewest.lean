import Mathlib
import Relief.Proofs.Number.Integer
import Relief.Proofs.Number.Shortest

/-!
The shortest decimal of a double has the fewest digits of all that are read as it. What is read as a double lies
in the interval around it, and the grids that the search passes over have no member of that interval.
-/
namespace Relief.Number

open Binary64 (minExponent Canonical)

variable {m c : Nat} {e k : Int} {q : ℚ} {v : Float} {r : Ratio} {d : Decimal}

/-! ### The nearest double -/

/-- What rounds to a significand is near it, where its exponent is the least or the number is great enough. -/
theorem near_of_rounded (hlow : (m : ℚ) - 1 / 2 ≤ q / 2 ^ e) (hhigh : q / 2 ^ e ≤ m + 1 / 2)
    (hstrict : m % 2 = 1 → (m : ℚ) - 1 / 2 < q / 2 ^ e ∧ q / 2 ^ e < m + 1 / 2)
    (hq : minExponent < e → 2 ^ 52 ≤ q / 2 ^ e) : Near m e q := by
  refine ⟨?_, hhigh, fun ho => ?_⟩
  · unfold lowerGap
    split
    · next hg =>
      have hb := hq hg.2
      rw [hg.1]
      push_cast
      linarith
    · exact hlow
  · have hg : lowerGap m e = 1 / 2 := if_neg fun hg => by omega
    rw [hg]
    exact hstrict ho

/-- What rounds to the next power of two is near the double with the least significand there. -/
theorem near_of_carried (he : minExponent ≤ e) (hlow : (2 : ℚ) ^ 53 - 1 / 2 ≤ q / 2 ^ e)
    (hhigh : q / 2 ^ e < 2 ^ 53) : Near (2 ^ 52) (e + 1) q := by
  have hhalf : q / 2 ^ (e + 1) = q / 2 ^ e / 2 := by
    rw [zpow_add_one₀ two_ne_zero, div_mul_eq_div_div]
  refine ⟨?_, ?_, fun ho => absurd ho (by decide)⟩
  · rw [hhalf, lowerGap, if_pos ⟨rfl, by omega⟩]
    push_cast
    linarith
  · rw [hhalf]
    push_cast
    linarith

namespace Ratio

/-- What has the word of a finite double other than zero lies in the interval around some such double. -/
theorem exists_near (hn : 0 < r.num) (hd : 0 < r.den) (h0 : 0 < r.toWord)
    (h : r.toWord < 2047 * 2 ^ 52) : ∃ m e, Canonical m e ∧ 0 < m ∧ Near m e r.value := by
  have hmin : minExponent = -1074 := rfl
  obtain ⟨hlow, hhigh⟩ := binaryMagnitude_spec hn hd
  have hle := round_units_le hn hd 52 (le_max_left (r.binaryMagnitude - 52) minExponent)
  have hge := fun he => le_round_units hn hd (p := 52) (by decide)
    (e := max (r.binaryMagnitude - 52) minExponent) he
  have hbounds := round_toEven_bounds
    (den_scale_pos hd two_pos (-max (r.binaryMagnitude - 52) minExponent))
  simp only [toWord, hn.ne', if_false, Nat.pow_eq] at h0 h
  -- from here on the quotient is known by its magnitude, its exponent and its rounded significand only
  generalize he : max (r.binaryMagnitude - 52) minExponent = e at *
  rw [value_scale, Nat.cast_ofNat, zpow_neg, ← div_eq_mul_inv] at hbounds
  generalize (r.scale 2 (-e)).round .toEven = n at *
  obtain ⟨h1, h2, h3⟩ := hbounds
  have hp : (0 : ℚ) < 2 ^ e := zpow_pos two_pos e
  have hbig : minExponent < e → 2 ^ 52 ≤ n := fun hlt => hge (by omega)
  have hquotient : minExponent < e → 2 ^ 52 ≤ r.value / 2 ^ e := by
    intro hlt
    have heq : e = r.binaryMagnitude - 52 := by omega
    rw [le_div_iff₀ hp, ← zpow_natCast, ← zpow_add₀ two_ne_zero, heq]
    simpa using hlow
  have hsmall : r.value / 2 ^ e < 2 ^ 53 := by
    rw [div_lt_iff₀ hp, ← zpow_natCast, ← zpow_add₀ two_ne_zero]
    exact hhigh.trans_le (zpow_le_zpow_right₀ one_le_two (by push_cast; omega))
  obtain hlt | rfl := Nat.lt_or_eq_of_le hle
  · refine ⟨n, e, ⟨hlt, by omega, ?_, hbig⟩, ?_, near_of_rounded h1 h2 h3 hquotient⟩
    · by_contra hgt
      have := hbig (by omega)
      omega
    · by_contra hz
      have hne : ¬ minExponent < e := fun hlt => by
        have := hbig hlt
        omega
      omega
  · refine ⟨2 ^ 52, e + 1, ⟨by decide, by omega, by omega, fun _ => le_rfl⟩, by decide, ?_⟩
    push_cast at h1
    exact near_of_carried (by omega) h1 hsmall

theorem value_two_pow (p : Nat) : (⟨Nat.pow 2 p, 1⟩ : Ratio).value = 2 ^ (p : ℤ) := by
  rw [value, Nat.pow_eq, Nat.cast_pow, Nat.cast_ofNat, Nat.cast_one, div_one, zpow_natCast]

/-- A quotient is read as a double only if it lies in the interval around it. -/
theorem near_of_toFloat (hv : Binary64.ofFloat v = .finite false m e) (hm : 0 < m) (hd : 0 < r.den)
    (h : r.toFloat false = v) : Near m e r.value := by
  have hle := r.toWord_le
  have hw : r.toWord.toUInt64.toNat = r.toWord :=
    UInt64.toNat_ofNat_of_lt' (by change _ < 2 ^ 64; omega)
  rw [← h, toFloat, if_neg Bool.false_ne_true, Nat.zero_add, ofFloat_ofBits, hw] at hv
  obtain ⟨hc, hword⟩ := Binary64.word_of_ofWord (by omega) hv
  have hmin : minExponent = -1074 := rfl
  obtain ⟨hc1, hc2, hc3, -⟩ := hc
  have hn : 0 < r.num := by
    by_contra hz
    rw [toWord, if_pos (by omega)] at hword
    omega
  obtain ⟨m', e', hc', hm', hnear⟩ := exists_near hn hd (by omega) (by omega)
  have hword' := toWord_of_near hc' hm' hd hnear
  have h' : Binary64.ofWord r.toWord = .finite false m' e' := by
    rw [hword', ← ofWord_wordOf false hc', wordOf, if_neg Bool.false_ne_true, Nat.zero_add]
  rw [hv] at h'
  cases h'
  exact hnear

end Ratio

theorem Decimal.near_of_toFloat (hv : Binary64.ofFloat v = .finite false m e) (hm : 0 < m)
    (h : d.toFloat false = v) : Near m e d.value := by
  have hzero : Ratio.toFloat ⟨0, 1⟩ false ≠ v := fun h => by
    have hp := (Ratio.near_of_toFloat hv hm Nat.one_pos h).pos hm
    simp [Ratio.value] at hp
  have hhuge : ∀ p, 1024 ≤ p → Ratio.toFloat ⟨Nat.pow 2 p, 1⟩ false ≠ v := fun p hp h => by
    have hc := Binary64.canonical_of_ofFloat hv
    have hlt := hc.lt_of_near (Ratio.near_of_toFloat hv hm Nat.one_pos h)
    rw [Ratio.value_two_pow] at hlt
    have := (zpow_lt_zpow_iff_right₀ one_lt_two).1 hlt
    have hge := hc.exponent_le
    omega
  rw [toFloat] at h
  split at h
  · exact absurd h hzero
  · split at h
    · exact absurd h (hhuge 1024 le_rfl)
    · split at h
      · exact absurd h hzero
      · rw [← value_ratio]
        exact Ratio.near_of_toFloat hv hm (Ratio.den_scale_pos Nat.one_pos (by decide) _) h

/-! ### The interval has no gaps -/

theorem near_self (m : Nat) (e : Int) : Near m e (m * 2 ^ e) := by
  have h2 := quarter_le_lowerGap m e
  have h : (m : ℚ) * 2 ^ e / 2 ^ e = m := mul_div_cancel_right₀ _ (zpow_pos two_pos e).ne'
  refine ⟨?_, ?_, fun _ => ⟨?_, ?_⟩⟩ <;> rw [h] <;> linarith

theorem Near.of_between {q₁ q₂ : ℚ} (h₁ : Near m e q₁) (h₂ : Near m e q₂) (hl : q₁ ≤ q)
    (hu : q ≤ q₂) : Near m e q := by
  have hp : (0 : ℚ) ≤ 2 ^ e := (zpow_pos two_pos e).le
  have hl' : q₁ / 2 ^ e ≤ q / 2 ^ e := div_le_div_of_nonneg_right hl hp
  have hu' : q / 2 ^ e ≤ q₂ / 2 ^ e := div_le_div_of_nonneg_right hu hp
  exact ⟨h₁.le.trans hl', hu'.trans h₂.ge, fun ho =>
    ⟨(h₁.strict ho).1.trans_le hl', hu'.trans_lt (h₂.strict ho).2⟩⟩

namespace Neighbourhood

/-- A grid without a neighbour of the value in the interval has no member of it at all. -/
theorem not_near_of_none (hm : 0 < m) (h : (of m e).onGrid k = none) (a : Nat) :
    ¬ Near m e (a * 10 ^ k) := by
  intro ha
  obtain ⟨h1, h2⟩ := not_near_of_onGrid hm h
  have hp : (0 : ℚ) < 2 ^ e := zpow_pos two_pos e
  have hk : (0 : ℚ) ≤ 10 ^ k := (zpow_pos (by norm_num) k).le
  obtain hle | hgt := le_or_gt a (below m e k)
  · refine h1 (ha.of_between (near_self m e) ?_ ?_)
    · exact mul_le_mul_of_nonneg_right (Nat.cast_le.2 hle) hk
    · exact (div_le_iff₀ hp).1 (below_le m e k)
  · refine h2 ((near_self m e).of_between ha ?_ ?_)
    · exact ((lt_div_iff₀ hp).1 (lt_below_add_one m e k)).le
    · exact mul_le_mul_of_nonneg_right (Nat.cast_le.2 hgt) hk

/-- The digits that a grid offers are no more than those between its unit and the leading digit. -/
theorem le_pow_of_onGrid {j : ℕ} (h : (of m e).onGrid (k - j) = some c)
    (hk : (m : ℚ) * 2 ^ e < 10 ^ (k + 1)) : c ≤ 10 ^ (j + 1) := by
  have hlt : below m e (k - j) < 10 ^ (j + 1) := by
    have hle := (div_le_iff₀ (zpow_pos two_pos e)).1 (below_le m e (k - j))
    have hp : (0 : ℚ) < 10 ^ (k - j) := zpow_pos (by norm_num) _
    have hs : (10 : ℚ) ^ (k + 1) = 10 ^ (j + 1) * 10 ^ (k - j) := by
      rw [← zpow_natCast, ← zpow_add₀ (by norm_num)]
      congr 1
      push_cast
      ring
    have := lt_of_mul_lt_mul_right (hs ▸ hle.trans_lt hk) hp.le
    exact_mod_cast this
  obtain ⟨rfl | rfl, -⟩ := mem_of_onGrid h
  · exact hlt.le
  · exact hlt

end Neighbourhood

/-! ### The fewest digits -/

theorem coefficient_shortest_mod (hc : Canonical m e) (hm : 0 < m) :
    (shortest m e).coefficient % 10 ≠ 0 := by
  obtain ⟨j, c, hs, hj, -⟩ := search_decimalMagnitude hc hm
  rw [hs]
  apply Decimal.coefficient_strip_mod
  rintro rfl
  have hp := (Neighbourhood.near_of_onGrid hm hj).pos hm
  rw [Nat.cast_zero, zero_mul] at hp
  exact lt_irrefl _ hp

/-- A decimal in the interval has as many digits as the shortest one or more: of those grids that the
search passes over, it lies on one, or a power of ten on the first lies between it and the value. -/
theorem length_digits_le_of_near (hc : Canonical m e) (hm : 0 < m) (h : Near m e d.value) :
    (shortest m e).digits.length ≤ d.digits.length := by
  obtain ⟨j, c, hs, hj, hnone⟩ := search_decimalMagnitude hc hm
  obtain ⟨hlow, hhigh⟩ := Binary64.decimalMagnitude_spec hc hm
  have hmod := coefficient_shortest_mod hc hm
  have hle : (shortest m e).coefficient ≤ c := by
    rw [hs]
    exact Decimal.coefficient_strip_le _
  generalize (Binary64.ratio m e).decimalMagnitude = k at *
  have hpow := Neighbourhood.le_pow_of_onGrid hj hhigh
  have hj1 : (shortest m e).digits.length ≤ j + 1 := by
    apply (Nat.length_toDigits_le_iff (by decide) (by omega)).2
    refine lt_of_le_of_ne (hle.trans hpow) fun heq => hmod ?_
    rw [heq, pow_succ, Nat.mul_mod_left]
  refine hj1.trans ?_
  by_contra hlt
  have hn : 0 < d.digits.length := List.length_pos_iff.2 Nat.toDigits_ne_nil
  have hd : d.coefficient < 10 ^ d.digits.length :=
    (Nat.length_toDigits_le_iff (by decide) hn).1 le_rfl
  generalize d.digits.length = n at *
  have h10 : ∀ i : ℤ, (0 : ℚ) < 10 ^ i := fun i => zpow_pos (by norm_num) i
  obtain hge | hsmall := le_or_gt (k - (n - 1 : ℕ)) d.exponent
  · obtain ⟨i, hi⟩ := Int.eq_ofNat_of_zero_le (sub_nonneg.2 hge)
    refine Neighbourhood.not_near_of_none hm (hnone (n - 1) (by omega)) (d.coefficient * 10 ^ i) ?_
    have hv : ((d.coefficient * 10 ^ i : ℕ) : ℚ) * 10 ^ (k - (n - 1 : ℕ)) = d.value := by
      rw [Decimal.value, Nat.cast_mul, mul_assoc, Nat.cast_pow, Nat.cast_ofNat, ← zpow_natCast,
        ← hi, ← zpow_add₀ (by norm_num), sub_add_cancel]
    rwa [hv]
  · refine Neighbourhood.not_near_of_none hm (hnone 0 (by omega)) 1 ?_
    rw [Nat.cast_zero, sub_zero, Nat.cast_one, one_mul]
    refine h.of_between (near_self m e) ?_ hlow
    calc d.value ≤ 10 ^ (n : ℤ) * 10 ^ d.exponent := by
          rw [Decimal.value, zpow_natCast]
          exact mul_le_mul_of_nonneg_right (by exact_mod_cast hd.le) (h10 _).le
      _ = 10 ^ (n + d.exponent) := (zpow_add₀ (by norm_num) _ _).symm
      _ ≤ 10 ^ k := zpow_le_zpow_right₀ (by norm_num) (by omega)

/-- No decimal that is read as a double has fewer digits than the shortest one. -/
theorem length_digits_shortest_le (hv : Binary64.ofFloat v = .finite s m e) (hm : 0 < m)
    (h : d.toFloat s = v) : (shortest m e).digits.length ≤ d.digits.length := by
  cases s with
  | false =>
    exact length_digits_le_of_near (canonical_of_finite hv) hm (Decimal.near_of_toFloat hv hm h)
  | true =>
    have hn : Binary64.ofFloat (-v) = .finite false m e := by rw [ofFloat_neg, hv]; rfl
    have h : d.toFloat false = -v := by rw [← h, Decimal.toFloat_true, float_neg_neg]
    exact length_digits_le_of_near (canonical_of_finite hv) hm (Decimal.near_of_toFloat hn hm h)

end Relief.Number
