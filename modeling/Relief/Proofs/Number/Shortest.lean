import Mathlib
import Relief.Proofs.Number.Reading

/-!
The shortest decimal of a double reads back as it: the search ends at a grid with a member of the
interval around the double, after at most seventeen digits.
-/
namespace Relief.Number

open Binary64 (minExponent Canonical)

variable {m c : Nat} {e k : Int} {q : ℚ} {v : Float}

/-! ### Zeros at the end -/

theorem Decimal.value_go (fuel : Nat) (d : Decimal) : (strip.go fuel d).value = d.value := by
  induction fuel generalizing d with
  | zero => rfl
  | succ fuel ih =>
    rw [strip.go]
    split
    · next h =>
      have hd : d.coefficient = d.coefficient / 10 * 10 := by omega
      rw [ih, value, value, zpow_add_one₀ (by norm_num), ← mul_assoc, mul_right_comm]
      congr 1
      conv_rhs => rw [hd]
      push_cast
      rfl
    · rfl

theorem Decimal.value_strip (d : Decimal) : d.strip.value = d.value :=
  value_go _ d

theorem Decimal.coefficient_go_le (fuel : Nat) (d : Decimal) :
    (strip.go fuel d).coefficient ≤ d.coefficient := by
  induction fuel generalizing d with
  | zero => exact le_rfl
  | succ fuel ih =>
    rw [strip.go]
    split
    · exact (ih _).trans (Nat.div_le_self _ _)
    · exact le_rfl

theorem Decimal.coefficient_strip_le (d : Decimal) : d.strip.coefficient ≤ d.coefficient :=
  coefficient_go_le _ d

/-- Every turn takes a zero away, so that there are turns enough for all of them. -/
theorem Decimal.coefficient_go_mod {fuel : Nat} {d : Decimal} (h : d.coefficient ≠ 0)
    (hf : d.coefficient ≤ fuel) : (strip.go fuel d).coefficient % 10 ≠ 0 := by
  induction fuel generalizing d with
  | zero => exact absurd (Nat.le_zero.1 hf) h
  | succ fuel ih =>
    rw [strip.go]
    split
    · exact ih (d := ⟨_, _⟩) (by dsimp only; omega) (by dsimp only; omega)
    · next hn => exact fun h0 => hn ⟨h, h0⟩

theorem Decimal.coefficient_strip_mod {d : Decimal} (h : d.coefficient ≠ 0) :
    d.strip.coefficient % 10 ≠ 0 :=
  coefficient_go_mod h le_rfl

/-! ### The interval -/

theorem near_iff_closed (h : m % 2 = 0) :
    Near m e q ↔ m - lowerGap m e ≤ q / 2 ^ e ∧ q / 2 ^ e ≤ m + 1 / 2 := by
  constructor
  · exact fun hn => ⟨hn.le, hn.ge⟩
  · exact fun ⟨h1, h2⟩ => ⟨h1, h2, fun ho => by omega⟩

theorem near_iff_open (h : m % 2 = 1) :
    Near m e q ↔ m - lowerGap m e < q / 2 ^ e ∧ q / 2 ^ e < m + 1 / 2 := by
  constructor
  · exact fun hn => hn.strict h
  · exact fun hs => ⟨hs.1.le, hs.2.le, fun _ => hs⟩

namespace Neighbourhood

theorem low_eq (hm : 0 < m) (e : Int) : ((of m e).low : ℚ) = 4 * (m - lowerGap m e) := by
  unfold of lowerGap
  simp only [Nat.pow_eq]
  split
  · rw [Nat.cast_sub (by omega)]
    push_cast
    ring
  · rw [Nat.cast_sub (by omega)]
    push_cast
    ring

theorem contains_iff (hm : 0 < m) {num den : Nat} (hd : 0 < den)
    (hq : q / 2 ^ e = (num : ℚ) / den / 4) :
    (of m e).contains num den = true ↔ Near m e q := by
  have hd' : (0 : ℚ) < den := Nat.cast_pos.2 hd
  have hlow := low_eq hm e
  have hhigh : ((of m e).high : ℚ) = 4 * (m + 1 / 2) := by
    simp only [of]
    push_cast
    ring
  have h1 : (of m e).low * den ≤ num ↔ m - lowerGap m e ≤ q / 2 ^ e := by
    rw [hq, le_div_iff₀ four_pos, le_div_iff₀ hd', mul_comm _ (4 : ℚ), ← hlow]
    exact_mod_cast Iff.rfl
  have h2 : num ≤ (of m e).high * den ↔ q / 2 ^ e ≤ m + 1 / 2 := by
    rw [hq, div_le_iff₀ four_pos, div_le_iff₀ hd', mul_comm _ (4 : ℚ), ← hhigh]
    exact_mod_cast Iff.rfl
  have h3 : (of m e).low * den < num ↔ m - lowerGap m e < q / 2 ^ e := by
    rw [hq, lt_div_iff₀ four_pos, lt_div_iff₀ hd', mul_comm _ (4 : ℚ), ← hlow]
    exact_mod_cast Iff.rfl
  have h4 : num < (of m e).high * den ↔ q / 2 ^ e < m + 1 / 2 := by
    rw [hq, div_lt_iff₀ four_pos, div_lt_iff₀ hd', mul_comm _ (4 : ℚ), ← hhigh]
    exact_mod_cast Iff.rfl
  have hc : (of m e).closed = (m % 2 == 0) := rfl
  obtain hm2 | hm2 := Nat.mod_two_eq_zero_or_one m
  · rw [near_iff_closed hm2, contains, if_pos (by rw [hc, hm2]; rfl), Bool.and_eq_true,
      decide_eq_true_iff, decide_eq_true_iff, h1, h2]
  · rw [near_iff_open hm2, contains, if_neg (by rw [hc, hm2]; decide), Bool.and_eq_true,
      decide_eq_true_iff, decide_eq_true_iff, h3, h4]

/-! ### Grids -/

/-- The distance of two neighbours on a grid, in the unit of an interval. -/
def step (e k : Int) : Ratio := ((Ratio.ofNat 1).scale 10 k).scale 2 (-(e - 2))

theorem step_den_pos (e k : Int) : 0 < (step e k).den :=
  Ratio.den_scale_pos (Ratio.den_scale_pos Nat.one_pos (by decide) _) two_pos _

theorem step_num_pos (e k : Int) : 0 < (step e k).num :=
  Ratio.num_scale_pos (Ratio.num_scale_pos Nat.one_pos (by decide) _) two_pos _

theorem value_step (e k : Int) : (step e k).value = 4 * (10 ^ k / 2 ^ e) := by
  rw [step, Ratio.value_scale, Ratio.value_scale, Ratio.value_ofNat, neg_sub, zpow_sub₀ (by norm_num)]
  push_cast
  norm_num
  ring

theorem contains_step (hm : 0 < m) (e k : Int) (c : Nat) :
    (of m e).contains (c * (step e k).num) (step e k).den = true ↔ Near m e (c * 10 ^ k) := by
  apply contains_iff hm (step_den_pos e k)
  have h : ((c * (step e k).num : ℕ) : ℚ) / (step e k).den = c * (step e k).value := by
    rw [Nat.cast_mul, mul_div_assoc, Ratio.value]
  rw [h, value_step]
  ring

/-- The member of the grid at the value or before it. -/
def below (m : Nat) (e k : Int) : Nat := 4 * m * (step e k).den / (step e k).num

theorem roundDiv_mem (num den : Nat) (tie : Tie) :
    roundDiv num den tie = num / den ∨ roundDiv num den tie = num / den + 1 := by
  unfold roundDiv
  dsimp only
  split
  · exact .inl rfl
  · split
    · exact .inr rfl
    · cases tie with
      | toEven =>
        dsimp only
        omega
      | up => exact .inr rfl

theorem onGrid_eq (m : Nat) (e k : Int) : (of m e).onGrid k =
    if (of m e).contains (below m e k * (step e k).num) (step e k).den &&
        (of m e).contains ((below m e k + 1) * (step e k).num) (step e k).den then
      some (roundDiv (4 * m * (step e k).den) (step e k).num .toEven)
    else if (of m e).contains (below m e k * (step e k).num) (step e k).den then
      some (below m e k)
    else if (of m e).contains ((below m e k + 1) * (step e k).num) (step e k).den then
      some (below m e k + 1)
    else none := rfl

theorem mem_of_onGrid (h : (of m e).onGrid k = some c) :
    (c = below m e k ∨ c = below m e k + 1) ∧
      (of m e).contains (c * (step e k).num) (step e k).den = true := by
  rw [onGrid_eq] at h
  split at h
  · next hb =>
    rw [Bool.and_eq_true] at hb
    obtain hr | hr := roundDiv_mem (4 * m * (step e k).den) (step e k).num .toEven
    · rw [← Option.some.inj h, hr]
      exact ⟨.inl rfl, hb.1⟩
    · rw [← Option.some.inj h, hr]
      exact ⟨.inr rfl, hb.2⟩
  · split at h
    · next hb =>
      rw [← Option.some.inj h]
      exact ⟨.inl rfl, hb⟩
    · split at h
      · next hb =>
        rw [← Option.some.inj h]
        exact ⟨.inr rfl, hb⟩
      · cases h

theorem near_of_onGrid (hm : 0 < m) (h : (of m e).onGrid k = some c) : Near m e (c * 10 ^ k) :=
  (contains_step hm e k c).1 (mem_of_onGrid h).2

theorem not_near_of_onGrid (hm : 0 < m) (h : (of m e).onGrid k = none) :
    ¬ Near m e (below m e k * 10 ^ k) ∧ ¬ Near m e ((below m e k + 1 : ℕ) * 10 ^ k) := by
  rw [← contains_step hm, ← contains_step hm]
  rw [onGrid_eq] at h
  split at h
  · cases h
  · split at h
    · cases h
    · next h1 =>
      split at h
      · cases h
      · next h2 => exact ⟨h1, h2⟩

theorem below_le (m : Nat) (e k : Int) : below m e k * (10 : ℚ) ^ k / 2 ^ e ≤ m := by
  have hn : (0 : ℚ) < (step e k).num := Nat.cast_pos.2 (step_num_pos e k)
  have hd : (0 : ℚ) < (step e k).den := Nat.cast_pos.2 (step_den_pos e k)
  have h : ((below m e k * (step e k).num : ℕ) : ℚ) ≤ ((4 * m * (step e k).den : ℕ) : ℚ) :=
    Nat.cast_le.2 (Nat.div_mul_le_self _ _)
  have hv := value_step e k
  rw [Ratio.value, div_eq_iff hd.ne'] at hv
  push_cast at h
  rw [hv, ← mul_assoc, mul_le_mul_iff_of_pos_right hd] at h
  rw [mul_div_assoc]
  linarith

theorem lt_below_add_one (m : Nat) (e k : Int) :
    m < (below m e k + 1 : ℕ) * (10 : ℚ) ^ k / 2 ^ e := by
  have hd : (0 : ℚ) < (step e k).den := Nat.cast_pos.2 (step_den_pos e k)
  have h : ((4 * m * (step e k).den : ℕ) : ℚ) < (((below m e k + 1) * (step e k).num : ℕ) : ℚ) :=
    Nat.cast_lt.2 (Nat.lt_mul_of_div_lt (Nat.lt_succ_self _) (step_num_pos e k))
  have hv := value_step e k
  rw [Ratio.value, div_eq_iff hd.ne'] at hv
  push_cast at h ⊢
  rw [hv, ← mul_assoc, mul_lt_mul_iff_of_pos_right hd] at h
  rw [mul_div_assoc]
  linarith

/-- A grid of seventeen digits is fine enough to have a member of the interval. -/
theorem onGrid_isSome (hc : Canonical m e) (hm : 0 < m) (h : (10 : ℚ) ^ (k + 16) ≤ m * 2 ^ e) :
    ((of m e).onGrid k).isSome = true := by
  rw [Option.isSome_iff_ne_none]
  intro hn
  obtain ⟨h1, h2⟩ := not_near_of_onGrid hm hn
  have hb := below_le m e k
  have ha := lt_below_add_one m e k
  have hg := lowerGap_le m e
  have hgp := quarter_le_lowerGap m e
  -- neither neighbour of the value is near, so that they are far apart
  have h3 : below m e k * (10 : ℚ) ^ k / 2 ^ e ≤ m - lowerGap m e := by
    by_contra hlt
    exact h1 ⟨(not_le.1 hlt).le, by linarith, fun _ => ⟨not_le.1 hlt, by linarith⟩⟩
  have h4 : m + 1 / 2 ≤ (below m e k + 1 : ℕ) * (10 : ℚ) ^ k / 2 ^ e := by
    by_contra hlt
    exact h2 ⟨by linarith, (not_le.1 hlt).le, fun _ => ⟨by linarith, not_le.1 hlt⟩⟩
  have h5 : (10 : ℚ) ^ k / 2 ^ e ≤ m / 10 ^ 16 := by
    have hp : (0 : ℚ) < 2 ^ e := zpow_pos two_pos e
    rw [div_le_div_iff₀ hp (by norm_num), ← zpow_natCast, ← zpow_add₀ (by norm_num)]
    exact h
  rw [mul_div_assoc] at h3 h4
  push_cast at h4
  have h6 : lowerGap m e + 1 / 2 ≤ m / 10 ^ 16 := by linarith
  unfold lowerGap at h6
  split at h6
  · next hp =>
    rw [hp.1] at h6
    norm_num at h6
  · have hlt : (m : ℚ) < ((2 ^ 53 : ℕ) : ℚ) := Nat.cast_lt.2 hc.significand_lt
    rw [le_div_iff₀ (by norm_num)] at h6
    norm_num at h6 hlt
    linarith

/-- The search ends at the first grid with a member of the interval, if the last grid has one. -/
theorem search_spec (n : Neighbourhood) (fuel : Nat) (k : Int)
    (h : (n.onGrid (k - fuel)).isSome = true) :
    ∃ j c, n.search fuel k = ⟨c, k - (j : ℕ)⟩ ∧ n.onGrid (k - j) = some c ∧
      ∀ i < j, n.onGrid (k - (i : ℕ)) = none := by
  induction fuel generalizing k with
  | zero =>
    obtain ⟨c, hc⟩ := Option.isSome_iff_exists.1 h
    rw [Nat.cast_zero, sub_zero] at hc
    refine ⟨0, c, ?_, ?_, nofun⟩
    · rw [search, hc, Nat.cast_zero, sub_zero]
      rfl
    · rwa [Nat.cast_zero, sub_zero]
  | succ fuel ih =>
    rw [search]
    split
    · next c hc => exact ⟨0, c, by rw [Nat.cast_zero, sub_zero], by rwa [Nat.cast_zero, sub_zero], nofun⟩
    · next hc =>
      have hk : ∀ i : ℕ, k - 1 - i = k - (i + 1 : ℕ) := fun i => by omega
      rw [Nat.cast_succ, ← Nat.cast_succ, ← hk] at h
      obtain ⟨j, c, hs, hj, hi⟩ := ih (k - 1) h
      rw [hk] at hs hj
      refine ⟨j + 1, c, hs, hj, fun i hlt => ?_⟩
      cases i with
      | zero => rwa [Nat.cast_zero, sub_zero]
      | succ i =>
        rw [← hk]
        exact hi i (by omega)

end Neighbourhood

/-! ### Reading back -/

theorem value_shortest_zero (e : Int) : (shortest 0 e).value = 0 := by
  rw [shortest, if_pos rfl, Decimal.value, Nat.cast_zero, zero_mul]

open Binary64 in
theorem Binary64.decimalMagnitude_spec (hc : Canonical m e) (hm : 0 < m) :
    (10 : ℚ) ^ (ratio m e).decimalMagnitude ≤ m * 2 ^ e ∧
      m * 2 ^ e < (10 : ℚ) ^ ((ratio m e).decimalMagnitude + 1) := by
  have hv := value_ratio m e
  have hn : 0 < (ratio m e).num := Ratio.num_scale_pos hm two_pos e
  have hd := den_ratio_pos m e
  have hlow : (2 : ℚ) ^ e ≤ m * 2 ^ e :=
    le_mul_of_one_le_left (zpow_pos two_pos e).le (Nat.one_le_cast.2 hm)
  have hhigh : m * 2 ^ e < (2 : ℚ) ^ (e + 53) := by
    rw [zpow_add₀ two_ne_zero, mul_comm]
    have hlt : (m : ℚ) < ((2 ^ 53 : ℕ) : ℚ) := Nat.cast_lt.2 hc.significand_lt
    push_cast at hlt
    exact mul_lt_mul_of_pos_left hlt (zpow_pos two_pos e)
  obtain ⟨h1, h2⟩ := Ratio.value_bounds hn hd
  rw [hv] at h1 h2
  have h3 := (zpow_lt_zpow_iff_right₀ one_lt_two).1 (lt_of_le_of_lt h1 hhigh)
  have h4 := (zpow_lt_zpow_iff_right₀ one_lt_two).1 (lt_of_le_of_lt hlow h2)
  have h5 := hc.le_exponent
  have h6 := hc.exponent_le
  have hmin : minExponent = -1074 := rfl
  rw [← hv]
  exact Ratio.decimalMagnitude_spec hn hd (by omega) (by omega)

/-- The search for the shortest decimal ends at one of seventeen grids. -/
theorem search_decimalMagnitude (hc : Canonical m e) (hm : 0 < m) :
    ∃ j c, shortest m e = (⟨c, (Binary64.ratio m e).decimalMagnitude - (j : ℕ)⟩ : Decimal).strip ∧
      (Neighbourhood.of m e).onGrid ((Binary64.ratio m e).decimalMagnitude - j) = some c ∧
      ∀ i < j, (Neighbourhood.of m e).onGrid ((Binary64.ratio m e).decimalMagnitude - (i : ℕ)) = none := by
  have hk : ((Binary64.ratio m e).decimalMagnitude - (16 : ℕ) + 16 : ℤ) =
      (Binary64.ratio m e).decimalMagnitude := sub_add_cancel _ _
  obtain ⟨j, c, hs, hj, hi⟩ := (Neighbourhood.of m e).search_spec 16 _
    (Neighbourhood.onGrid_isSome hc hm (by rw [hk]; exact (Binary64.decimalMagnitude_spec hc hm).1))
  refine ⟨j, c, ?_, hj, hi⟩
  rw [shortest, if_neg hm.ne', hs]

theorem near_shortest (hc : Canonical m e) (hm : 0 < m) : Near m e (shortest m e).value := by
  obtain ⟨j, c, hs, hj, -⟩ := search_decimalMagnitude hc hm
  rw [hs, Decimal.value_strip]
  exact Neighbourhood.near_of_onGrid hm hj

/-- Every decimal of the value of the shortest one reads back as the double, bit for bit. -/
theorem toFloat_of_shortest (hv : Binary64.ofFloat v = .finite false m e)
    {d : Decimal} (h : d.value = (shortest m e).value) : d.toFloat false = v := by
  obtain rfl | hm := Nat.eq_zero_or_pos m
  · apply Decimal.toFloat_of_zero hv
    rw [h, value_shortest_zero]
  · apply Decimal.toFloat_of_near hv hm
    rw [h]
    exact near_shortest (Binary64.canonical_of_ofFloat hv) hm

end Relief.Number
