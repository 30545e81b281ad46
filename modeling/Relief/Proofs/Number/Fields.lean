import Mathlib
import Relief.Proofs.Number.Order

/-!
Doubles by sign, significand and exponent. Every canonical triple is that of one double, so an operation
on doubles is known from what it does to the triple.
-/
namespace Relief.Number

open Float.Model Float.Model.UnpackedFloat

variable {v : Float} {s : Bool} {m w : Nat} {e : Int} {u : UnpackedFloat}

def signum (negative : Bool) : Sign := if negative then .negative else .positive

/-- A number as arithmetic takes it apart. -/
def Binary64.unpacked : Binary64 → UnpackedFloat
  | nan => .notANumber
  | infinite s => .infinity (signum s)
  | finite s m e => if h : 0 < m then .finite (signum s) m e h else .zero (signum s)

/-! ### Words -/

theorem toNat_unpackMantissa (b : BitVec Format.binary64.numBits) :
    (unpackMantissa b).toNat = b.toNat % 2 ^ 52 := by
  rw [unpackMantissa, BitVec.toNat_cast, BitVec.extractLsb_toNat, Nat.shiftRight_zero]
  rfl

theorem ofBitVec_unpackSign (b : BitVec Format.binary64.numBits) :
    Sign.ofBitVec (unpackSign b) = signum (decide (2 ^ 63 ≤ b.toNat)) := by
  have h := unpackSign_eq_zero_iff b
  by_cases hs : 2 ^ 63 ≤ b.toNat
  · have h1 : unpackSign b = 1#1 := by
      have h0 : unpackSign b ≠ 0#1 := fun h0 => absurd (h.1 h0) (by omega)
      exact (BitVec.eq_zero_or_eq_one _).resolve_left h0
    rw [h1, decide_eq_true hs]
    rfl
  · rw [h.2 (by omega), decide_eq_false hs]
    rfl

theorem unpack_eq (b : BitVec Format.binary64.numBits) :
    UnpackedFloat.unpack .binary64 b = (Binary64.ofWord b.toNat).unpacked := by
  have hx : unpackExponent b = -1#_ ↔ b.toNat / 2 ^ 52 % 2 ^ 11 = 2047 := by
    rw [← toNat_unpackExponent, ← BitVec.toNat_inj]
    rfl
  have hx0 : unpackExponent b = 0#_ ↔ b.toNat / 2 ^ 52 % 2 ^ 11 = 0 := by
    rw [← toNat_unpackExponent, ← BitVec.toNat_inj]
    rfl
  have hm0 : unpackMantissa b = 0#_ ↔ b.toNat % 2 ^ 52 = 0 := by
    rw [← toNat_unpackMantissa, ← BitVec.toNat_inj]
    rfl
  have hone : (1#1 ++ unpackMantissa b).toNat = 2 ^ 52 + b.toNat % 2 ^ 52 := by
    have hlt : b.toNat % 2 ^ 52 < 2 ^ 52 := Nat.mod_lt _ (by decide)
    rw [BitVec.toNat_append, toNat_unpackMantissa]
    exact (Nat.two_pow_add_eq_or_of_lt hlt 1).symm
  have hbias : Format.binary64.exponentBias = 1023 := rfl
  rw [UnpackedFloat.unpack]
  simp only [hx, hx0, hm0, hone, hbias, toNat_unpackExponent, toNat_unpackMantissa,
    ofBitVec_unpackSign, Binary64.ofWord, Nat.pow_eq]
  split
  · split <;> rfl
  · split
    · next h0 =>
      simp only [Binary64.unpacked, h0]
      split
      · next h => rw [dif_neg (Nat.not_lt.2 h.le)]
      · next h => rw [dif_pos (Nat.pos_of_ne_zero h)]; rfl
    · rw [Binary64.unpacked, dif_pos (Nat.add_pos_left (by decide) _)]
      congr 1

theorem fields_eq_unpacked (v : Float) : fields v = (Binary64.ofFloat v).unpacked :=
  unpack_eq v.toBits.toBitVec

theorem ofFloat_inj {v' : Float} (h : Binary64.ofFloat v = Binary64.ofFloat v') : v = v' := by
  apply fields_inj
  rw [fields_eq_unpacked, fields_eq_unpacked, h]

/-! ### Doubles from their parts -/

theorem ofFloat_ofBits (b : UInt64) : Binary64.ofFloat (Float.ofBits b) = .ofWord b.toNat := by
  have hb : (Float.ofBits b).toBits.toBitVec =
      if @isNaNBits .binary64 b.toBitVec then packedNaN .binary64 else b.toBitVec :=
    @pack_unpack .binary64 b.toBitVec (by decide)
  rw [Binary64.ofFloat, ← UInt64.toNat_toBitVec, hb]
  split
  · next hn =>
    rw [isNaNBits, decide_eq_true_iff, ← BitVec.toNat_inj, ne_eq, ← BitVec.toNat_inj,
      toNat_unpackExponent, toNat_unpackMantissa] at hn
    have hx : b.toNat / 2 ^ 52 % 2 ^ 11 = 2047 := hn.1
    have hf : ¬ b.toNat % 2 ^ 52 = 0 := hn.2
    simp only [Binary64.ofWord, Nat.pow_eq, hx, hf, if_true, if_false]
    rfl
  · rfl

/-- The word of a finite double. -/
def wordOf (s : Bool) (m : Nat) (e : Int) : Nat :=
  (if s then 2 ^ 63 else 0) + ((e - Binary64.minExponent).toNat * 2 ^ 52 + m)

theorem wordOf_lt (s : Bool) (h : Binary64.Canonical m e) : wordOf s m e < 2 ^ 64 := by
  obtain ⟨h1, h2, h3, -⟩ := h
  have hmin : Binary64.minExponent = -1074 := rfl
  unfold wordOf
  split <;> omega

theorem ofWord_wordOf (s : Bool) (h : Binary64.Canonical m e) :
    Binary64.ofWord (wordOf s m e) = .finite s m e := by
  obtain ⟨h1, h2, h3, h4⟩ := h
  have hmin : Binary64.minExponent = -1074 := rfl
  have hs : decide (2 ^ 63 ≤ wordOf s m e) = s := by
    unfold wordOf
    cases s with
    | false =>
      rw [decide_eq_false_iff_not, if_neg Bool.false_ne_true]
      omega
    | true =>
      rw [decide_eq_true_iff, if_pos rfl]
      omega
  have hw : wordOf s m e % 2 ^ 63 = (e - Binary64.minExponent).toNat * 2 ^ 52 + m := by
    unfold wordOf
    split <;> omega
  have hf : wordOf s m e % 2 ^ 52 = m % 2 ^ 52 := by omega
  have hx : wordOf s m e / 2 ^ 52 % 2 ^ 11 = (e - Binary64.minExponent).toNat + m / 2 ^ 52 := by
    omega
  simp only [Binary64.ofWord, Nat.pow_eq, hs, hf, hx]
  rw [if_neg (by omega)]
  split
  · simp only [Binary64.finite.injEq, true_and]
    omega
  · simp only [Binary64.finite.injEq, true_and]
    omega

theorem canonical_of_finite (h : Binary64.ofFloat v = .finite s m e) : Binary64.Canonical m e := by
  have hw : v.toBits.toNat < 2 ^ 64 := v.toBits.toNat_lt
  have hmin : Binary64.minExponent = -1074 := rfl
  simp only [Binary64.ofFloat, Binary64.ofWord, Nat.pow_eq] at h
  split at h
  · split at h <;> cases h
  · split at h <;>
    · injection h with hs hm he
      subst hm he
      exact ⟨by omega, by omega, by omega, by omega⟩

/-- What some double stands for. -/
def Binary64.IsDouble : Binary64 → Prop
  | finite _ m e => Canonical m e
  | _ => True

theorem isDouble_ofFloat (v : Float) : (Binary64.ofFloat v).IsDouble := by
  cases h : Binary64.ofFloat v with
  | nan | infinite => trivial
  | finite s m e => exact canonical_of_finite h

theorem exists_ofFloat {b : Binary64} (h : b.IsDouble) : ∃ v, Binary64.ofFloat v = b := by
  cases b with
  | nan => exact ⟨Float.ofBits 0x7FF8000000000000, ofFloat_ofBits _⟩
  | infinite s =>
    cases s with
    | false => exact ⟨Float.ofBits 0x7FF0000000000000, ofFloat_ofBits _⟩
    | true => exact ⟨Float.ofBits 0xFFF0000000000000, ofFloat_ofBits _⟩
  | finite s m e =>
    refine ⟨Float.ofBits (wordOf s m e).toUInt64, ?_⟩
    rw [ofFloat_ofBits, Nat.toUInt64_eq, UInt64.toNat_ofNat_of_lt' (wordOf_lt s h),
      ofWord_wordOf s h]

/-- What an operation puts together is what it says, if some double is that. -/
theorem ofFloat_ofModel_pack {b : Binary64} (h : b.IsDouble) :
    Binary64.ofFloat (.ofModel (.pack b.unpacked)) = b := by
  obtain ⟨v, hv⟩ := exists_ofFloat h
  have hp : Float.ofModel (.pack (fields v)) = v := Float.ofBits_toBits v
  rw [← hv, ← fields_eq_unpacked, hp]

/-! ### Changes of sign -/

namespace Binary64

/-- With the other sign. -/
def neg : Binary64 → Binary64
  | nan => nan
  | infinite s => infinite !s
  | finite s m e => finite (!s) m e

/-- Without a sign. -/
def abs : Binary64 → Binary64
  | nan => nan
  | infinite _ => infinite false
  | finite _ m e => finite false m e

theorem unpacked_neg (b : Binary64) : b.neg.unpacked = b.unpacked.neg := by
  cases b with
  | nan => rfl
  | infinite s => cases s <;> rfl
  | finite s m e =>
    simp only [neg, unpacked]
    split <;> cases s <;> rfl

theorem unpacked_abs (b : Binary64) : b.abs.unpacked = b.unpacked.abs := by
  cases b with
  | nan | infinite => rfl
  | finite s m e =>
    simp only [abs, unpacked]
    split <;> rfl

end Binary64

theorem ofFloat_neg (v : Float) : Binary64.ofFloat (-v) = (Binary64.ofFloat v).neg := by
  have hd := isDouble_ofFloat v
  have h : -v = .ofModel (.pack (Binary64.ofFloat v).neg.unpacked) := by
    rw [Binary64.unpacked_neg, ← fields_eq_unpacked]
    rfl
  rw [h, ofFloat_ofModel_pack]
  cases hv : Binary64.ofFloat v <;> rw [hv] at hd <;> exact hd

theorem ofFloat_abs (v : Float) : Binary64.ofFloat v.abs = (Binary64.ofFloat v).abs := by
  have hd := isDouble_ofFloat v
  have h : v.abs = .ofModel (.pack (Binary64.ofFloat v).abs.unpacked) := by
    rw [Binary64.unpacked_abs, ← fields_eq_unpacked]
    rfl
  rw [h, ofFloat_ofModel_pack]
  cases hv : Binary64.ofFloat v <;> rw [hv] at hd <;> exact hd

theorem abs_neg_eq (v : Float) : (-v).abs = v.abs := by
  apply ofFloat_inj
  rw [ofFloat_abs, ofFloat_abs, ofFloat_neg]
  cases Binary64.ofFloat v <;> rfl

/-! ### Magnitudes -/

/-- The significands of doubles are such that exponents tell more than they do. -/
theorem lex_iff_value {m n : Nat} {e k : Int} (hv : Binary64.Canonical m e)
    (hw : Binary64.Canonical n k) : e < k ∨ e = k ∧ m < n ↔ (m : ℚ) * 2 ^ e < n * 2 ^ k := by
  have hlt : ∀ {m n : Nat} {e k : Int}, Binary64.Canonical m e → Binary64.Canonical n k → e < k →
      (m : ℚ) * 2 ^ e < n * 2 ^ k := by
    intro m n e k hv hw h
    have hm : (m : ℚ) < 2 ^ 53 := by exact_mod_cast hv.significand_lt
    have hn : (2 : ℚ) ^ 52 ≤ n := by exact_mod_cast hw.normal (hv.le_exponent.trans_lt h)
    calc (m : ℚ) * 2 ^ e < 2 ^ 53 * 2 ^ e := mul_lt_mul_of_pos_right hm (zpow_pos two_pos e)
      _ = 2 ^ 52 * 2 ^ (e + 1) := by rw [zpow_add_one₀ two_ne_zero]; ring
      _ ≤ n * 2 ^ k := by
        gcongr
        · exact one_le_two
        · exact h
  obtain h | rfl | h := Int.lt_trichotomy e k
  · exact iff_of_true (.inl h) (hlt hv hw h)
  · rw [mul_lt_mul_iff_left₀ (zpow_pos two_pos e), Nat.cast_lt]
    simp
  · exact iff_of_false (by omega) (hlt hw hv h).not_gt

/-- Magnitudes are compared as numbers. -/
theorem abs_lt_iff_value {v w : Float} {s : Bool} {m n : Nat} {e k : Int}
    (hv : Binary64.ofFloat v = .finite s m e) (hw : Binary64.ofFloat w = .finite false n k)
    (hn : 0 < n) : v.abs < w ↔ (m : ℚ) * 2 ^ e < n * 2 ^ k := by
  have hfw : fields w = .finite .positive n k hn := by
    rw [fields_eq_unpacked, hw]
    exact dif_pos hn
  rw [lt_iff_compare, hfw, fields_eq_unpacked, ofFloat_abs, hv]
  obtain rfl | hm := Nat.eq_zero_or_pos m
  · refine iff_of_true rfl ?_
    rw [Nat.cast_zero, zero_mul]
    exact mul_pos (Nat.cast_pos.2 hn) (zpow_pos two_pos k)
  · have hfv : Binary64.unpacked (.abs (.finite s m e)) = .finite .positive m e hm := dif_pos hm
    rw [hfv, compare_eq_lt_iff (by simp) (by simp),
      ← lex_iff_value (canonical_of_finite hv) (canonical_of_finite hw)]
    simp [rank, Prod.Lex.toLex_lt_toLex]

end Relief.Number
