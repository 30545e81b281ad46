import Mathlib
import Relief.Proofs.Format.Coordinate

/-!
Numbers with a fixed number of places. What is written is the exact value of a double rounded once, halves away
from zero, and its sign is that of the double even where nothing else is left of it.
-/
namespace Relief.Number

/-! ### Digits around the point -/

/-- How `n / 10 ^ places` is written with exactly that many places: a whole part without zeros in front, and
after the point the remainder in as many digits as there are places. -/
def WrittenInPlaces (places n : Nat) (w : List Char) : Prop :=
  ∃ fraction, PlainDigits fraction ∧ fraction.length = places ∧
    Nat.ofDigitChars 10 fraction 0 = n % 10 ^ places ∧
    w = Nat.toDigits 10 (n / 10 ^ places) ++ if places = 0 then [] else '.' :: fraction

/-- The last digit of a padded number is that of the number. -/
theorem padLeft_toDigits_succ (p n : Nat) : padLeft (p + 2) (Nat.toDigits 10 n) =
    padLeft (p + 1) (Nat.toDigits 10 (n / 10)) ++ [(n % 10).digitChar] := by
  obtain hn | hn := Nat.lt_or_ge n 10
  · rw [Nat.toDigits_of_lt_base hn, Nat.div_eq_of_lt hn, Nat.mod_eq_of_lt hn,
      Nat.toDigits_of_lt_base (by decide : 0 < 10)]
    simp only [padLeft, zeroDigits, List.length_singleton, Nat.add_sub_cancel]
    rw [show p + 2 - 1 = p + 1 from rfl, List.replicate_succ']
    rfl
  · rw [Nat.toDigits_of_base_le (by decide) hn]
    simp only [padLeft, zeroDigits, List.length_append, List.length_singleton]
    rw [show p + 2 - ((Nat.toDigits 10 (n / 10)).length + 1) =
      p + 1 - (Nat.toDigits 10 (n / 10)).length by omega, List.append_assoc]

/-- A number with enough zeros in front is its whole part, and its remainder in a fixed number of digits. -/
theorem exists_padLeft_toDigits (p n : Nat) : ∃ fraction, PlainDigits fraction ∧ fraction.length = p ∧
    Nat.ofDigitChars 10 fraction 0 = n % 10 ^ p ∧
    padLeft (p + 1) (Nat.toDigits 10 n) = Nat.toDigits 10 (n / 10 ^ p) ++ fraction := by
  induction p generalizing n with
  | zero =>
    refine ⟨[], fun _ hc => absurd hc List.not_mem_nil, rfl, (Nat.mod_one n).symm, ?_⟩
    have hpos : 0 < (Nat.toDigits 10 n).length := List.length_pos_iff.2 Nat.toDigits_ne_nil
    rw [padLeft, show 0 + 1 - (Nat.toDigits 10 n).length = 0 by omega, pow_zero, Nat.div_one,
      List.append_nil]
    rfl
  | succ p ih =>
    obtain ⟨fraction, hd, hl, hv, hw⟩ := ih (n / 10)
    have hlast : (n % 10).digitChar.isDigit = true ∧ (n % 10).digitChar.toNat - 48 = n % 10 := by
      have hlt : n % 10 < 10 := Nat.mod_lt n (by decide)
      interval_cases n % 10 <;> decide
    refine ⟨fraction ++ [(n % 10).digitChar], hd.append fun c hc => ?_, ?_, ?_, ?_⟩
    · rw [List.mem_singleton.1 hc]
      exact hlast.1
    · rw [List.length_append, hl, List.length_singleton]
    · rw [Nat.ofDigitChars_append, hv, Nat.ofDigitChars_cons, Nat.ofDigitChars_nil]
      change 10 * (n / 10 % 10 ^ p) + ((n % 10).digitChar.toNat - 48) = _
      rw [hlast.2, pow_succ', Nat.mod_mul, Nat.add_comm]
    · rw [padLeft_toDigits_succ, hw, Nat.div_div_eq_div_mul, ← pow_succ', List.append_assoc]

theorem writtenInPlaces_layPlaces (places n : Nat) : WrittenInPlaces places n (layPlaces places n) := by
  obtain ⟨fraction, hd, hl, hv, hw⟩ := exists_padLeft_toDigits places n
  refine ⟨fraction, hd, hl, hv, ?_⟩
  have hlen : (Nat.toDigits 10 (n / 10 ^ places) ++ fraction).length - places =
      (Nat.toDigits 10 (n / 10 ^ places)).length := by
    rw [List.length_append, hl, Nat.add_sub_cancel]
  change layPlaces (.ofNat places) n = _
  simp only [layPlaces]
  rw [hw, hlen, List.take_left, List.drop_left]
  split
  · rw [List.append_nil]
  · rfl

end Relief.Number

namespace Relief.Format

open Relief.Number

variable {v : Float} {s : Bool} {m : Nat} {e : Int}

/-- A double other than zero has too many digits long before its places run out. -/
theorem places_le_of_floor_lt {places : Nat} (hv : Binary64.ofFloat v = .finite s m e) (hm : 0 < m)
    (h : ⌊magnitude v * 10 ^ places + 1 / 2⌋₊ < 10 ^ 28) : places ≤ 1102 := by
  have hlow : (2 : ℚ) ^ (-1074 : ℤ) ≤ magnitude v := by
    rw [magnitude_eq hv]
    calc (2 : ℚ) ^ (-1074 : ℤ) ≤ 2 ^ e :=
          zpow_le_zpow_right₀ one_le_two (canonical_of_finite hv).le_exponent
      _ ≤ m * 2 ^ e := le_mul_of_one_le_left (zpow_pos two_pos e).le (Nat.one_le_cast.2 hm)
  have hhigh : magnitude v * 10 ^ places < 10 ^ 28 := by
    have hf := (Nat.floor_lt' (by norm_num)).1 h
    push_cast at hf
    linarith
  have hpow : (10 : ℚ) ^ places < 10 ^ 1102 := by
    calc (10 : ℚ) ^ places = 2 ^ 1074 * (2 ^ (-1074 : ℤ) * 10 ^ places) := by
          rw [← mul_assoc, ← zpow_natCast 2 1074, ← zpow_add₀ two_ne_zero]
          norm_num
      _ ≤ 2 ^ 1074 * (magnitude v * 10 ^ places) := by gcongr
      _ < 2 ^ 1074 * 10 ^ 28 := by gcongr
      _ ≤ 10 ^ 1074 * 10 ^ 28 := by gcongr; norm_num
      _ = 10 ^ 1102 := (pow_add 10 1074 28).symm
  exact (pow_lt_pow_iff_right₀ (by norm_num)).1 hpow |>.le

theorem placesText_eq (places : Nat) (hv : Binary64.ofFloat v = .finite s m e)
    (hlt : v.abs < fixedLimit) : placesText places v = String.ofList (sign (decide (v < 0))
      (layPlaces places ⌊magnitude v * 10 ^ places + 1 / 2⌋₊)) := by
  rw [placesText, if_pos hlt, hv, magnitude_eq hv, ← zpow_natCast, ← toPlaces_up_eq_floor,
    decide_lt_zero hv]
  rfl

/-- A finite double below `10 ^ 21` has the text of its exact value rounded to the given places, halves away
from zero, with a sign exactly if it is negative. Four places can always be had, and any number of them if the
digits are at most twenty-eight, where a zero has no more than the least exponent allows. -/
theorem toFixed_rounded (hv : v.isFinite = true) (hlt : magnitude v < 10 ^ 21) :
    ⌊magnitude v * 10 ^ 4 + 1 / 2⌋₊ < 10 ^ 28 ∧
    ∀ places : Nat, ⌊magnitude v * 10 ^ places + 1 / 2⌋₊ < 10 ^ 28 →
      ((v == 0) = true → places ≤ 1000026) →
      ∃ w, WrittenInPlaces places ⌊magnitude v * 10 ^ places + 1 / 2⌋₊ w ∧
        toFixed places v = .ok (String.ofList (sign (decide (v < 0)) w)) := by
  obtain ⟨s, m, e, hv⟩ := exists_finite hv
  refine ⟨?_, fun places hn hz => ?_⟩
  · rw [Nat.floor_lt' (by norm_num)]
    push_cast
    linarith
  · have hlt := (abs_lt_fixedLimit_iff hv).2 hlt
    have hp : (places : Int) ≤ maxPlaces := by
      have h3 : maxPlaces = 1000026 := rfl
      obtain hm | hm := Nat.eq_zero_or_pos m
      · have := hz ((beq_zero_iff hv).2 hm)
        omega
      · have := places_le_of_floor_lt hv hm hn
        omega
    refine ⟨_, writtenInPlaces_layPlaces places _, ?_⟩
    have hprecise : isTooPrecise places v = false :=
      isTooPrecise_eq_false_of_floor_lt (by rwa [zpow_natCast])
    rw [toFixed_eq_ok_of_precise (Int.natCast_nonneg places) hp hprecise, placesText_eq places hv hlt]

/-- A small negative number in four places is a zero with a sign. -/
theorem toFixed_rounded_negative :
    (-3.0517578125e-05 : Float).isFinite = true ∧ magnitude (-3.0517578125e-05) = 1 / 2 ^ 15 ∧
      ⌊(1 / 2 ^ 15 * 10 ^ 4 + 1 / 2 : ℚ)⌋₊ = 0 ∧
      ∃ w, WrittenInPlaces 4 0 w ∧ toFixed 4 (-3.0517578125e-05) = .ok (String.ofList ('-' :: w)) := by
  have hv : Binary64.ofFloat (-3.0517578125e-05) = .finite true (2 ^ 52) (-67) := by decide
  have hm : magnitude (-3.0517578125e-05) = 1 / 2 ^ 15 := by
    rw [magnitude_eq hv]
    norm_num
  have hn : ⌊(1 / 2 ^ 15 * 10 ^ 4 + 1 / 2 : ℚ)⌋₊ = 0 := by
    rw [Nat.floor_eq_zero]
    norm_num
  have hf : (-3.0517578125e-05 : Float).isFinite = true := by decide
  obtain ⟨hfour, hplaces⟩ := toFixed_rounded hf (by rw [hm]; norm_num)
  obtain ⟨w, hw, ht⟩ := hplaces 4 hfour fun hz => absurd hz (by decide)
  rw [hm, hn] at hw
  refine ⟨hf, hm, hn, w, hw, ?_⟩
  rwa [decide_eq_true (by decide)] at ht

/-- A zero has one digit in any number of places, and is refused if they are more than an exponent can be
shifted by. -/
theorem toFixed_zero_refused :
    (0 : Float).isFinite = true ∧ magnitude 0 < 10 ^ 21 ∧
      ⌊magnitude 0 * 10 ^ 2000055 + 1 / 2⌋₊ < 10 ^ 28 ∧ toFixed 2000055 0 = .error .precision := by
  have hm : magnitude 0 = 0 := by
    rw [magnitude_eq ofFloat_zero, Nat.cast_zero, zero_mul]
  have hn : ⌊magnitude 0 * 10 ^ 2000055 + 1 / 2⌋₊ = 0 := by
    rw [hm, zero_mul, zero_add, Nat.floor_eq_zero]
    norm_num
  refine ⟨by decide, by rw [hm]; norm_num, by rw [hn]; norm_num, ?_⟩
  rw [toFixed, if_neg (by decide), if_pos (by decide)]

end Relief.Format
