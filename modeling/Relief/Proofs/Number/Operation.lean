import Mathlib
import Relief.Number.Nearest
import Relief.Proofs.Number.Rounded

/-!
Sums, differences, products and quotients of finite doubles, and doubles of natural numbers, are the doubles
nearest to the exact results. Whole numbers of few enough bits are doubles.
-/
namespace Relief.Number

open Float.Model Float.Model.UnpackedFloat
open Binary64 (minExponent Canonical)

variable {m n : Nat} {e k : Int} {v w : Float}

/-! ### Signs and zeros -/

theorem signedValue_zero (s : Bool) : signedValue s 0 = 0 := by
  cases s <;> simp [signedValue]

theorem signedValue_mul (s t : Bool) (a b : ℚ) :
    signedValue s a * signedValue t b = signedValue (s ^^ t) (a * b) := by
  cases s <;> cases t <;> simp [signedValue]

theorem signedValue_div (s t : Bool) (a b : ℚ) :
    signedValue s a / signedValue t b = signedValue (s ^^ t) (a / b) := by
  cases s <;> cases t <;> simp [signedValue, neg_div, div_neg]

theorem signum_div (s t : Bool) : signum s / signum t = signum (s ^^ t) := by
  cases s <;> cases t <;> rfl

theorem nearest_zero (t : Sign) : Nearest 0 (.ofModel (.pack (.zero t))) := by
  obtain ⟨s, rfl⟩ : ∃ s, signum s = t := by
    cases t with
    | negative => exact ⟨true, rfl⟩
    | positive => exact ⟨false, rfl⟩
  have hzero : (Binary64.finite s 0 minExponent).unpacked = .zero (signum s) := rfl
  rw [← hzero]
  refine nearest_of_grid ⟨by decide, le_rfl, fun h => absurd h (lt_irrefl _)⟩ ?_ nofun
  simpa using near_self 0 minExponent

/-- The parts of a finite double as arithmetic sees them. -/
theorem exists_fields (hv : v.isFinite = true) :
    (∃ s, exact v = 0 ∧ fields v = .zero (signum s)) ∨
    ∃ s m e, ∃ hm : 0 < m, Canonical m e ∧ exact v = signedValue s (m * 2 ^ e) ∧
      fields v = .finite (signum s) m e hm := by
  obtain ⟨s, m, e, hv⟩ := exists_finite hv
  rw [fields_eq_unpacked, exact_of_finite hv, hv, unpacked_finite]
  by_cases hm : m = 0
  · subst hm
    refine .inl ⟨s, ?_, dif_pos rfl⟩
    rw [Nat.cast_zero, zero_mul, signedValue_zero]
  · exact .inr ⟨s, m, e, Nat.pos_of_ne_zero hm, canonical_of_finite hv, rfl, dif_neg hm⟩

/-- Finite doubles are compared as numbers. -/
theorem exact_lt_of_lt (hv : v.isFinite = true) (hw : w.isFinite = true) (h : v < w) :
    exact v < exact w := by
  have hpos : ∀ {m : Nat} {e : Int}, 0 < m → (0 : ℚ) < m * 2 ^ e := fun hm =>
    mul_pos (Nat.cast_pos.2 hm) (zpow_pos two_pos _)
  rw [lt_iff_compare, compare_eq_lt_iff (fields_ne_notANumber hv) (fields_ne_notANumber hw)] at h
  obtain ⟨s, hev, hfv⟩ | ⟨s, m, e, hm, hc, hev, hfv⟩ := exists_fields hv
  · obtain ⟨t, hew, hfw⟩ | ⟨t, n, k, hn, hc', hew, hfw⟩ := exists_fields hw
    · rw [hfv, hfw] at h
      exact absurd h (lt_irrefl _)
    · rw [hfv, hfw] at h
      rw [hev, hew]
      cases t with
      | false => exact hpos hn
      | true => simp [rank, signum, Prod.Lex.toLex_lt_toLex] at h
  · obtain ⟨t, hew, hfw⟩ | ⟨t, n, k, hn, hc', hew, hfw⟩ := exists_fields hw
    · rw [hfv, hfw] at h
      rw [hev, hew]
      cases s with
      | false => simp [rank, signum, Prod.Lex.toLex_lt_toLex] at h
      | true => exact neg_lt_zero.2 (hpos hm)
    · rw [hfv, hfw] at h
      rw [hev, hew]
      cases s with
      | false =>
        cases t with
        | false =>
          have hlex : e < k ∨ e = k ∧ m < n := by
            simpa [rank, signum, Prod.Lex.toLex_lt_toLex] using h
          exact (lex_iff_value hc hc').1 hlex
        | true => simp [rank, signum, Prod.Lex.toLex_lt_toLex] at h
      | true =>
        cases t with
        | false => exact (neg_lt_zero.2 (hpos hm)).trans (hpos hn)
        | true =>
          have hlex : k < e ∨ e = k ∧ n < m := by
            simpa [rank, signum, Prod.Lex.toLex_lt_toLex] using h
          exact neg_lt_neg ((lex_iff_value hc' hc).1 (hlex.imp_right fun h => ⟨h.1.symm, h.2⟩))

/-- Numbers at one place in the order are the same. -/
theorem exact_eq_of_rank_eq (hv : v.isFinite = true) (hw : w.isFinite = true)
    (h : rank (fields v) = rank (fields w)) : exact v = exact w := by
  obtain ⟨s, hev, hfv⟩ | ⟨s, m, e, hm, -, hev, hfv⟩ := exists_fields hv
  · obtain ⟨t, hew, hfw⟩ | ⟨t, n, k, hn, -, hew, hfw⟩ := exists_fields hw
    · rw [hev, hew]
    · rw [hfv, hfw] at h
      cases t <;> simp [rank, signum] at h
  · obtain ⟨t, hew, hfw⟩ | ⟨t, n, k, hn, -, hew, hfw⟩ := exists_fields hw
    · rw [hfv, hfw] at h
      cases s <;> simp [rank, signum] at h
    · rw [hfv, hfw] at h
      rw [hev, hew]
      cases s <;> cases t <;> simp [rank, signum] at h <;> rw [h.1, h.2]

theorem le_iff_exact_le (hv : v.isFinite = true) (hw : w.isFinite = true) :
    v ≤ w ↔ exact v ≤ exact w := by
  rw [Scalar.ranked_isFinite.le_iff hv hw]
  constructor
  · intro h
    obtain h | h := h.lt_or_eq
    · exact (exact_lt_of_lt hv hw ((Scalar.ranked_isFinite.lt_iff hv hw).2 h)).le
    · exact (exact_eq_of_rank_eq hv hw h).le
  · contrapose!
    exact fun h => exact_lt_of_lt hw hv ((Scalar.ranked_isFinite.lt_iff hw hv).2 h)

/-! ### Products -/

/-- A product of significands has enough bits. -/
theorem mul_exponent_le (hc : Canonical m e) (hc' : Canonical n k) (hm : 0 < m) (hn : 0 < n) :
    e + k ≤ Format.binary64.targetExponent (totalExponent (m * n) (e + k)) := by
  have hmin : minExponent = -1074 := rfl
  rw [targetExponent_eq, totalExponent]
  by_cases hbig : 2 ^ 52 ≤ m * n
  · have := (Nat.le_log2 (Nat.mul_pos hm hn).ne').2 hbig
    omega
  · have hm' : m < 2 ^ 52 := lt_of_le_of_lt (Nat.le_mul_of_pos_right m hn) (not_le.1 hbig)
    have hn' : n < 2 ^ 52 := lt_of_le_of_lt (Nat.le_mul_of_pos_left n hm) (not_le.1 hbig)
    have h1 : ¬ minExponent < e := fun h => absurd (hc.normal h) (by omega)
    have h2 : ¬ minExponent < k := fun h => absurd (hc'.normal h) (by omega)
    omega

theorem nearest_mul (hv : v.isFinite = true) (hw : w.isFinite = true) :
    Nearest (exact v * exact w) (v * w) := by
  have hp : v * w = .ofModel (.pack (UnpackedFloat.mul .binary64 (fields v) (fields w))) := rfl
  rw [hp]
  obtain ⟨s, hv, hfv⟩ | ⟨s, m, e, hm, hc, hv, hfv⟩ := exists_fields hv
  · rw [hv, hfv, zero_mul]
    obtain ⟨t, -, hfw⟩ | ⟨t, n, k, hn, -, -, hfw⟩ := exists_fields hw
    · rw [hfw]
      exact nearest_zero _
    · rw [hfw]
      exact nearest_zero _
  · obtain ⟨t, hw, hfw⟩ | ⟨t, n, k, hn, hc', hw, hfw⟩ := exists_fields hw
    · rw [hw, hfv, hfw, mul_zero]
      exact nearest_zero _
    · have hvalue : exact v * exact w = signedValue (s ^^ t) ((m * n : ℕ) * 2 ^ (e + k)) := by
        rw [hv, hw, signedValue_mul, zpow_add₀ two_ne_zero]
        push_cast
        congr 1
        ring
      rw [hvalue, hfv, hfw, UnpackedFloat.mul, signum_mul]
      exact nearest_roundWithAccuracy (describes_exact (m * n)) (mul_exponent_le hc hc' hm hn) _

/-! ### Quotients -/

/-- What a remainder tells of a quotient. -/
theorem describes_fraction (m : Nat) (hn : 0 < n) :
    Describes (.ofMantissaAndAccuracy (m / n) (accuracyOfFraction (m % n) n)) ((m : ℚ) / n) := by
  have hn' : (0 : ℚ) < n := Nat.cast_pos.2 hn
  have hm : (m : ℚ) = n * (m / n : ℕ) + (m % n : ℕ) := by exact_mod_cast (Nat.div_add_mod m n).symm
  have hlt : ((m % n : ℕ) : ℚ) < n := Nat.cast_lt.2 (Nat.mod_lt m hn)
  have hdiv : (m : ℚ) / n = (m / n : ℕ) + (m % n : ℕ) / n := by
    rw [hm]
    field_simp
  rw [hdiv, accuracyOfFraction]
  generalize m % n = r at *
  generalize m / n = d at *
  by_cases hr : r = 0
  · rw [if_pos hr, hr, Nat.cast_zero, zero_div, add_zero]
    exact describes_exact d
  · have hr' : (0 : ℚ) < r := Nat.cast_pos.2 (Nat.pos_of_ne_zero hr)
    have hpos : (0 : ℚ) < r / n := div_pos hr' hn'
    rw [if_neg hr]
    obtain h | h | h := lt_trichotomy (2 * r) n
    · have h' : (r : ℚ) / n < 1 / 2 := by
        have h : ((2 * r : ℕ) : ℚ) < n := Nat.cast_lt.2 h
        push_cast at h
        rw [div_lt_iff₀ hn']
        linarith
      rw [Nat.compare_eq_lt.2 h]
      change (d : ℚ) < d + r / n ∧ (d : ℚ) + r / n < d + 1 / 2
      exact ⟨by linarith, by linarith⟩
    · have h' : (r : ℚ) / n = 1 / 2 := by
        have h : ((2 * r : ℕ) : ℚ) = n := Nat.cast_inj.2 h
        push_cast at h
        rw [div_eq_iff hn'.ne']
        linarith
      rw [Nat.compare_eq_eq.2 h]
      change (d : ℚ) + r / n = d + 1 / 2
      rw [h']
    · have h' : 1 / 2 < (r : ℚ) / n := by
        have h : (n : ℚ) < ((2 * r : ℕ) : ℚ) := Nat.cast_lt.2 h
        push_cast at h
        rw [lt_div_iff₀ hn']
        linarith
      have h'' : (r : ℚ) / n < 1 := (div_lt_one hn').2 hlt
      rw [Nat.compare_eq_gt.2 h]
      change (d : ℚ) + 1 / 2 < d + r / n ∧ (d : ℚ) + r / n < d + 1
      exact ⟨by linarith, by linarith⟩

/-- The exponent at which a quotient is taken leaves it enough bits. -/
theorem divCore_exponent_le (hm : 0 < m) (hn : 0 < n) {t : Int}
    (ht : t = min (e - k) (Format.binary64.targetExponent (totalExponent m e - totalExponent n k))) :
    t ≤ Format.binary64.targetExponent (totalExponent (m <<< (e - k - t).toNat / n) t) := by
  have hmin : minExponent = -1074 := rfl
  rw [targetExponent_eq] at ht ⊢
  rw [totalExponent] at ht ⊢
  rw [totalExponent] at ht
  obtain hle | hgt := le_or_gt t (-1074)
  · omega
  · obtain ⟨j, hj⟩ := Int.eq_ofNat_of_zero_le (show 0 ≤ e - k - t by omega)
    have hbits : 2 ^ 52 ≤ m <<< j / n := by
      rw [Nat.le_div_iff_mul_le hn, Nat.shiftLeft_eq]
      have hn' : n < 2 ^ (n.log2 + 1) := Nat.lt_log2_self
      have hm' : 2 ^ m.log2 ≤ m := Nat.log2_self_le hm.ne'
      calc 2 ^ 52 * n ≤ 2 ^ 52 * 2 ^ (n.log2 + 1) := Nat.mul_le_mul_left _ hn'.le
        _ = 2 ^ (52 + (n.log2 + 1)) := (pow_add 2 _ _).symm
        _ ≤ 2 ^ (m.log2 + j) := Nat.pow_le_pow_right two_pos (by omega)
        _ = 2 ^ m.log2 * 2 ^ j := pow_add 2 _ _
        _ ≤ m * 2 ^ j := Nat.mul_le_mul_right _ hm'
    have hlog := (Nat.le_log2 (by omega)).2 hbits
    rw [hj, Int.toNat_natCast]
    omega

theorem nearest_div (hv : v.isFinite = true) (hw : w.isFinite = true) (h0 : exact w ≠ 0) :
    Nearest (exact v / exact w) (v / w) := by
  have hp : v / w = .ofModel (.pack (UnpackedFloat.div .binary64 (fields v) (fields w))) := rfl
  rw [hp]
  obtain ⟨t, hw, -⟩ | ⟨t, n, k, hn, hc', hw, hfw⟩ := exists_fields hw
  · exact absurd hw h0
  obtain ⟨s, hv, hfv⟩ | ⟨s, m, e, hm, hc, hv, hfv⟩ := exists_fields hv
  · rw [hv, hfv, hfw, zero_div]
    exact nearest_zero _
  · obtain ⟨j, hj⟩ : ∃ j : Int, j =
        min (e - k) (Format.binary64.targetExponent (totalExponent m e - totalExponent n k)) := ⟨_, rfl⟩
    have hcore : divCore .binary64 m e n k = (m <<< (e - k - j).toNat / n, j,
        accuracyOfFraction (m <<< (e - k - j).toNat % n) n) := by
      rw [hj]
      rfl
    have hvalue : exact v / exact w =
        signedValue (s ^^ t) ((m <<< (e - k - j).toNat : ℕ) / n * 2 ^ j) := by
      obtain ⟨i, hi⟩ := Int.eq_ofNat_of_zero_le (show 0 ≤ e - k - j by omega)
      have he : e = k + j + (i : Int) := by omega
      rw [hv, hw, signedValue_div, hi, Int.toNat_natCast, Nat.shiftLeft_eq, he, zpow_add₀ two_ne_zero,
        zpow_add₀ two_ne_zero, zpow_natCast]
      push_cast
      congr 1
      field_simp
    rw [hvalue, hfv, hfw, UnpackedFloat.div, hcore, signum_div]
    exact nearest_roundWithAccuracy (describes_fraction _ hn) (divCore_exponent_le hm hn hj) _

/-! ### Sums -/

theorem log2_shiftLeft (hm : m ≠ 0) (j : Nat) : (m <<< j).log2 = m.log2 + j := by
  induction j with
  | zero => rfl
  | succ j ih =>
    have hne : m <<< j ≠ 0 := by
      rw [Nat.shiftLeft_eq]
      exact (Nat.mul_pos (Nat.pos_of_ne_zero hm) (Nat.two_pow_pos j)).ne'
    rw [Nat.shiftLeft_succ, Nat.log2_two_mul hne, ih, Nat.add_assoc]

/-- Shifting a significand to a smaller exponent changes nothing. -/
theorem decreaseExponent_value (m : Nat) (e t : Int) :
    ((decreaseExponent m e t).1 : ℚ) * 2 ^ (decreaseExponent m e t).2 = m * 2 ^ e := by
  simp only [decreaseExponent, Nat.shiftLeft_eq]
  push_cast
  rw [mul_assoc, ← zpow_natCast, ← zpow_add₀ two_ne_zero, add_sub_cancel]

theorem decreaseExponent_snd (m : Nat) (e t : Int) : (decreaseExponent m e t).2 = min e t := by
  simp only [decreaseExponent]
  omega

theorem nearest_round (hm : 0 < m) (s : Bool) (e : Int) :
    Nearest (signedValue s (m * 2 ^ e)) (.ofModel (.pack (UnpackedFloat.round .binary64 (signum s) m e))) := by
  rw [UnpackedFloat.round]
  dsimp only
  obtain ⟨t, ht⟩ : ∃ t, Format.binary64.targetExponent (totalExponent m e) = t := ⟨_, rfl⟩
  have hle : (decreaseExponent m e t).2 ≤ Format.binary64.targetExponent
      (totalExponent (decreaseExponent m e t).1 (decreaseExponent m e t).2) := by
    have htotal : totalExponent (decreaseExponent m e t).1 (decreaseExponent m e t).2 =
        totalExponent m e := by
      simp only [totalExponent, decreaseExponent, log2_shiftLeft hm.ne']
      push_cast
      omega
    rw [htotal, ht, decreaseExponent_snd]
    exact min_le_right e t
  rw [ht, ← decreaseExponent_value m e t]
  exact nearest_roundWithAccuracy (describes_exact _) hle s

theorem nearest_normalize (i e : Int) (t : Sign) :
    Nearest (i * 2 ^ e) (.ofModel (.pack (UnpackedFloat.normalize .binary64 i e t))) := by
  rw [UnpackedFloat.normalize]
  obtain h | rfl | h := lt_trichotomy i 0
  · obtain ⟨n, rfl⟩ : ∃ n : Nat, i = -n := ⟨i.natAbs, by omega⟩
    have hround := nearest_round (m := n) (by omega) true e
    rw [Int.compare_eq_lt.2 h]
    simpa [signedValue, signum] using hround
  · simpa using nearest_zero t
  · obtain ⟨n, rfl⟩ := Int.eq_ofNat_of_zero_le h.le
    have hround := nearest_round (m := n) (by omega) false e
    rw [Int.compare_eq_gt.2 h]
    simpa [signedValue, signum] using hround

/-- Significands are added at the smaller exponent. -/
theorem apply_decreaseExponent (s : Bool) (m : Nat) {e t : Int} (ht : t ≤ e) :
    ((signum s).apply (decreaseExponent m e t).1 : ℚ) * 2 ^ t = signedValue s (m * 2 ^ e) := by
  have hvalue := decreaseExponent_value m e t
  rw [decreaseExponent_snd, min_eq_right ht] at hvalue
  rw [← hvalue]
  cases s with
  | false => rfl
  | true => simp [signum, Sign.apply, signedValue]

theorem nearest_add (hv : v.isFinite = true) (hw : w.isFinite = true) :
    Nearest (exact v + exact w) (v + w) := by
  have hp : v + w = .ofModel (.pack (UnpackedFloat.add .binary64 (fields v) (fields w))) := rfl
  obtain ⟨s, hev, hfv⟩ | ⟨s, m, e, hm, -, hev, hfv⟩ := exists_fields hv
  · obtain ⟨t, hew, hfw⟩ | ⟨t, n, k, hn, -, -, hfw⟩ := exists_fields hw
    · rw [hp, hev, hew, hfv, hfw, UnpackedFloat.add, add_zero]
      split <;> exact nearest_zero _
    · have hsum : v + w = w := by
        rw [hp, hfv, hfw]
        change Float.ofModel (.pack (.finite (signum t) n k hn)) = w
        rw [← hfw, pack_fields]
      rw [hsum, hev, zero_add]
      exact nearest_exact hw
  · obtain ⟨t, hew, hfw⟩ | ⟨t, n, k, hn, -, hew, hfw⟩ := exists_fields hw
    · have hsum : v + w = v := by
        rw [hp, hfv, hfw]
        change Float.ofModel (.pack (.finite (signum s) m e hm)) = v
        rw [← hfv, pack_fields]
      rw [hsum, hew, add_zero]
      exact nearest_exact hv
    · have hvalue : exact v + exact w =
          (((signum s).apply (decreaseExponent m e (min e k)).1 +
            (signum t).apply (decreaseExponent n k (min e k)).1 : ℤ) : ℚ) * 2 ^ (min e k) := by
        rw [hev, hew, Int.cast_add, add_mul, apply_decreaseExponent s m (min_le_left e k),
          apply_decreaseExponent t n (min_le_right e k)]
      rw [hp, hvalue, hfv, hfw, UnpackedFloat.add]
      exact nearest_normalize _ _ _

theorem fields_neg (v : Float) : fields (-v) = (fields v).neg := by
  rw [fields_eq_unpacked, fields_eq_unpacked, ofFloat_neg, Binary64.unpacked_neg]

theorem exact_neg (v : Float) : exact (-v) = -exact v := by
  rw [exact, exact, ofFloat_neg]
  cases Binary64.ofFloat v with
  | nan | infinite => exact neg_zero.symm
  | finite s m e => cases s <;> simp [Binary64.neg, Binary64.value, signedValue]

theorem apply_neg (t : Sign) (i : Int) : (-t).apply i = -t.apply i := by
  cases t with
  | positive => rfl
  | negative => exact (neg_neg i).symm

/-- A difference is a sum. -/
theorem float_sub_eq_add_neg (v w : Float) : v - w = v + -w := by
  have hs : UnpackedFloat.sub .binary64 (fields v) (fields w) =
      UnpackedFloat.add .binary64 (fields v) (fields (-w)) := by
    rw [fields_neg]
    rcases fields v with _ | _ | _ | ⟨s, m, e, hm⟩ <;> rcases fields w with _ | _ | _ | ⟨t, n, k, hn⟩ <;>
      try rfl
    simp only [UnpackedFloat.neg, UnpackedFloat.sub, UnpackedFloat.add, apply_neg, sub_eq_add_neg]
  have hp : v - w = .ofModel (.pack (UnpackedFloat.sub .binary64 (fields v) (fields w))) := rfl
  rw [hp, hs]
  rfl

theorem nearest_sub (hv : v.isFinite = true) (hw : w.isFinite = true) :
    Nearest (exact v - exact w) (v - w) := by
  rw [float_sub_eq_add_neg, sub_eq_add_neg, ← exact_neg]
  exact nearest_add hv (isFinite_neg hw)

/-! ### Natural numbers -/

theorem float_mul_comm (v w : Float) : v * w = w * v := by
  have hm : UnpackedFloat.mul .binary64 (fields v) (fields w) =
      UnpackedFloat.mul .binary64 (fields w) (fields v) := by
    have hsign : ∀ s t : Sign, s * t = t * s := by
      intro s t
      cases s <;> cases t <;> rfl
    rcases fields v with _ | _ | _ | ⟨s, m, e, hm⟩ <;> rcases fields w with _ | _ | _ | ⟨t, n, k, hn⟩ <;>
      simp only [UnpackedFloat.mul, hsign, Nat.mul_comm, Int.add_comm]
  have hp : v * w = .ofModel (.pack (UnpackedFloat.mul .binary64 (fields v) (fields w))) := rfl
  rw [hp, hm]
  rfl

theorem float_mul_one {u : Float} (hu : Binary64.ofFloat u = .finite false (2 ^ 52) (-52))
    (hv : v.isFinite = true) : v * u = v := by
  obtain ⟨s, m, e, hv⟩ := exists_finite hv
  apply ofFloat_inj
  rw [float_mul_comm, ofFloat_unit_mul hu hv, hv, Bool.false_xor]

theorem natCast_lt_bound (h : n < 2 ^ 53) : |(n : ℚ)| < overflowBound := by
  have hn : (n : ℚ) < ((2 ^ 53 : ℕ) : ℚ) := Nat.cast_lt.2 h
  have hpow : (2 : ℚ) ^ (1 : ℤ) ≤ 2 ^ (971 : ℤ) := zpow_le_zpow_right₀ one_le_two (by decide)
  rw [abs_of_nonneg n.cast_nonneg, cast_overflowBound]
  calc (n : ℚ) < (2 ^ 53 - 1 / 2) * 2 ^ (1 : ℤ) := by
        push_cast at hn
        rw [zpow_one]
        linarith
    _ ≤ (2 ^ 53 - 1 / 2) * 2 ^ (971 : ℤ) := mul_le_mul_of_nonneg_left hpow (by norm_num)

theorem nearest_toFloat (u : UInt64) : Nearest u.toNat u.toFloat := by
  have hround := nearest_normalize u.toNat 0 .positive
  rwa [Int.cast_natCast, zpow_zero, mul_one] at hround

/-- A natural number with zeros behind it has enough bits. -/
theorem nearest_ofScientific (hn : n ≠ 0) :
    Nearest n (.ofModel (.pack (UnpackedFloat.ofScientific .binary64 n 0))) := by
  have hpow : (0 : Int) ≤ 2 ^ Format.binary64.exponentBits := by decide
  have hround : UnpackedFloat.ofScientific .binary64 n 0 =
      roundWithAccuracy .binary64 (signum false) (n <<< 53) (-53) .exact := by
    rw [UnpackedFloat.ofScientific, dif_neg hn, if_neg (by decide), if_neg (by omega),
      if_pos (le_refl 0)]
    change roundWithAccuracy .binary64 (signum false) (n <<< 53 * 1) (-53 + 0) .exact = _
    rw [mul_one, add_zero]
  have hle : (-53 : Int) ≤ Format.binary64.targetExponent (totalExponent (n <<< 53) (-53)) := by
    rw [targetExponent_eq, totalExponent, log2_shiftLeft hn]
    push_cast
    omega
  have hvalue : signedValue false ((n <<< 53 : ℕ) * 2 ^ (-53 : Int)) = n := by
    change ((n <<< 53 : ℕ) : ℚ) * 2 ^ (-53 : Int) = n
    rw [Nat.shiftLeft_eq, Nat.cast_mul, Nat.cast_pow, zpow_neg]
    exact mul_inv_cancel_right₀ (by norm_num) _
  have hnearest := nearest_roundWithAccuracy (describes_exact (n <<< 53)) hle false
  rwa [hvalue, ← hround] at hnearest

/-- A natural number is read as the double nearest to it. -/
theorem nearest_ofNat (n : Nat) : Nearest n (Float.ofNat n) := by
  change Nearest n (Float.ofScientific n false 0)
  rw [Float.ofScientific]
  split
  · next h =>
    have hn : n.toUInt64.toNat = n := UInt64.toNat_ofNat_of_lt' (by change _ < 2 ^ 64; omega)
    have hu := nearest_toFloat n.toUInt64
    rw [hn] at hu
    have hone : Binary64.ofFloat (getElem Float.exactlyRepresentablePowersOfTen 0 (by decide)) =
      .finite false (2 ^ 52) (-52) := by decide
    rw [if_neg Bool.false_ne_true, float_mul_one hone (hu.isFinite_iff.2 (natCast_lt_bound h.1))]
    exact hu
  · next h => exact nearest_ofScientific fun h0 => h (by simp [h0])

theorem exists_exact_eq_natCast (hn : n < 2 ^ 53) : ∃ w : Float, w.isFinite = true ∧ exact w = n := by
  obtain rfl | h0 := Nat.eq_zero_or_pos n
  · have hzero : Binary64.ofFloat 0 = .finite false 0 minExponent := by decide
    refine ⟨0, rfl, ?_⟩
    rw [exact_of_finite hzero]
    simp [signedValue]
  · -- zeros behind the number fill it up to all bits of a significand
    have hlog : n.log2 < 53 := (Nat.log2_lt h0.ne').2 hn
    have hc : Canonical (n * 2 ^ (52 - n.log2)) (n.log2 - 52) := by
      refine ⟨?_, ?_, by omega, fun _ => ?_⟩
      · calc n * 2 ^ (52 - n.log2) < 2 ^ (n.log2 + 1) * 2 ^ (52 - n.log2) :=
              Nat.mul_lt_mul_of_pos_right Nat.lt_log2_self (Nat.two_pow_pos _)
          _ = 2 ^ 53 := by
              rw [← pow_add]
              congr 1
              omega
      · change (-1074 : Int) ≤ _
        omega
      · calc 2 ^ 52 = 2 ^ n.log2 * 2 ^ (52 - n.log2) := by
              rw [← pow_add]
              congr 1
              omega
          _ ≤ n * 2 ^ (52 - n.log2) := Nat.mul_le_mul_right _ (Nat.log2_self_le h0.ne')
    obtain ⟨w, hw⟩ := exists_ofFloat (b := .finite false (n * 2 ^ (52 - n.log2)) (n.log2 - 52)) hc
    refine ⟨w, isFinite_iff.2 ⟨_, _, _, hw⟩, ?_⟩
    rw [exact_of_finite hw]
    change ((n * 2 ^ (52 - n.log2) : ℕ) : ℚ) * 2 ^ (n.log2 - 52 : ℤ) = n
    have hexp : (n.log2 - 52 : ℤ) = -((52 - n.log2 : ℕ) : ℤ) := by omega
    rw [hexp, zpow_neg, zpow_natCast, Nat.cast_mul, Nat.cast_pow, Nat.cast_ofNat]
    exact mul_inv_cancel_right₀ (pow_pos two_pos _).ne' _

/-- Natural numbers of few enough bits are doubles. -/
theorem exact_ofNat (hn : n < 2 ^ 53) : exact (Float.ofNat n) = n := by
  obtain ⟨w, hw, hvalue⟩ := exists_exact_eq_natCast hn
  have h := nearest_ofNat n
  rw [← hvalue] at h ⊢
  exact h.exact_eq hw (hvalue ▸ n.cast_nonneg)

theorem isFinite_ofNat_iff : (Float.ofNat n).isFinite = true ↔ n < overflowBound := by
  rw [(nearest_ofNat n).isFinite_iff, abs_of_nonneg n.cast_nonneg, Nat.cast_lt]

theorem exact_ofNat_nonneg (n : Nat) : 0 ≤ exact (Float.ofNat n) :=
  (nearest_ofNat n).exact_nonneg n.cast_nonneg

theorem exact_ofNat_mono (hle : m ≤ n) (hn : (Float.ofNat n).isFinite = true) :
    exact (Float.ofNat m) ≤ exact (Float.ofNat n) :=
  (nearest_ofNat m).mono (nearest_ofNat n) hn m.cast_nonneg (Nat.cast_le.2 hle)

theorem one_le_exact_ofNat (h0 : 0 < n) (hn : (Float.ofNat n).isFinite = true) :
    1 ≤ exact (Float.ofNat n) := by
  have hone : exact (Float.ofNat 1) = 1 := by
    rw [exact_ofNat (by decide), Nat.cast_one]
  exact hone.symm.le.trans (exact_ofNat_mono h0 hn)

theorem isFinite_mul_ofNat_iff (hv : v.isFinite = true) (h0 : 0 ≤ exact v) :
    (v * Float.ofNat n).isFinite = true ↔
      n < overflowBound ∧ exact v * exact (Float.ofNat n) < overflowBound := by
  have habs := abs_of_nonneg (mul_nonneg h0 (exact_ofNat_nonneg n))
  rw [← isFinite_ofNat_iff]
  constructor
  · intro h
    have hn := (isFinite_of_mul h).2
    rw [(nearest_mul hv hn).isFinite_iff, habs] at h
    exact ⟨hn, h⟩
  · rintro ⟨hn, h⟩
    rwa [(nearest_mul hv hn).isFinite_iff, habs]

/-! ### Whole numbers -/

theorem Nearest.isFinite_of_abs_le {q : ℚ} (h : Nearest q v) (hn : n < 2 ^ 53) (hq : |q| ≤ n) :
    v.isFinite = true := by
  refine h.isFinite_iff.2 (hq.trans_lt ?_)
  rw [← Nat.abs_cast]
  exact natCast_lt_bound hn

theorem exact_ofInt {i : Int} (hi : i.natAbs < 2 ^ 53) :
    (Float.ofInt i).isFinite = true ∧ exact (Float.ofInt i) = i := by
  have hfinite : ∀ {n : Nat}, n < 2 ^ 53 → (Float.ofNat n).isFinite = true := fun hn =>
    (nearest_ofNat _).isFinite_of_abs_le hn (Nat.abs_cast _).le
  cases i with
  | ofNat n => exact ⟨hfinite hi, exact_ofNat hi⟩
  | negSucc n =>
    change (-Float.ofNat (n + 1)).isFinite = true ∧ exact (-Float.ofNat (n + 1)) = _
    have hi : n + 1 < 2 ^ 53 := hi
    rw [exact_neg, exact_ofNat hi, Int.cast_negSucc]
    exact ⟨isFinite_neg (hfinite hi), rfl⟩

/-- A magnitude is rounded to the whole number that is less than one half away. -/
theorem toPlaces_zero_of_abs_sub_lt (h : |(m * 2 ^ e : ℚ) - n| < 1 / 2) : toPlaces 0 .toEven m e = n := by
  have hd : 0 < ((Binary64.ratio m e).scale 10 0).den :=
    Ratio.den_scale_pos (Binary64.den_ratio_pos m e) (by decide) 0
  have hvalue : ((Binary64.ratio m e).scale 10 0).value = m * 2 ^ e := by
    rw [Ratio.value_scale, Binary64.value_ratio, zpow_zero, mul_one]
  obtain ⟨hlow, hhigh⟩ := abs_lt.1 h
  rw [toPlaces]
  refine Ratio.round_toEven hd ?_ ?_ fun _ => ⟨?_, ?_⟩ <;> rw [hvalue] <;> linarith

theorem nearestInt?_of_abs_sub_lt {i : Int} (hv : v.isFinite = true) (h : |exact v - i| < 1 / 2) :
    nearestInt? v = some i := by
  obtain ⟨s, m, e, hv⟩ := exists_finite hv
  have h0 := value_nonneg m e
  rw [exact_of_finite hv] at h
  have hround : toPlaces 0 .toEven m e = i.natAbs := by
    apply toPlaces_zero_of_abs_sub_lt
    calc |(m * 2 ^ e : ℚ) - i.natAbs| = |(|signedValue s (m * 2 ^ e)|) - (|(i : ℚ)|)| := by
          rw [abs_signedValue, abs_of_nonneg h0, Nat.cast_natAbs, Int.cast_abs]
      _ ≤ |signedValue s (m * 2 ^ e) - i| := abs_abs_sub_abs_le _ _
      _ < 1 / 2 := h
  have hsign : withSign s i.natAbs = i := by
    obtain ⟨hlow, hhigh⟩ := abs_lt.1 h
    cases s with
    | false =>
      change (m * 2 ^ e : ℚ) - i < 1 / 2 at hhigh
      have hi : (-1 : ℚ) < i := by linarith
      have hi : -1 < i := by exact_mod_cast hi
      exact Int.natAbs_of_nonneg (by omega)
    | true =>
      change -(1 / 2) < -(m * 2 ^ e : ℚ) - i at hlow
      have hi : (i : ℚ) < 1 := by linarith
      have hi : i < 1 := by exact_mod_cast hi
      change -(i.natAbs : Int) = i
      omega
  rw [nearestInt?, hv]
  dsimp only
  rw [hround, hsign]

end Relief.Number
