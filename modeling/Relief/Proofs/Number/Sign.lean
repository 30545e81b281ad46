import Mathlib
import Relief.Proofs.Number.Double
import Relief.Proofs.Number.Reading

/-!
Finite doubles without a sign, by their comparison with zero and by their words.
-/
namespace Relief.Number

open Float.Model Float.Model.UnpackedFloat

variable {v : Float}

/-- Finite numbers without a sign. -/
def IsMagnitude (v : Float) : Prop := ∃ m e, Binary64.ofFloat v = .finite false m e

theorem toNat_unpackExponent (b : BitVec Format.binary64.numBits) :
    (unpackExponent b).toNat = b.toNat / 2 ^ 52 % 2 ^ 11 := by
  rw [unpackExponent, BitVec.toNat_cast, BitVec.extractLsb_toNat, Nat.shiftRight_eq_div_pow]
  rfl

theorem unpackSign_eq_zero_iff (b : BitVec Format.binary64.numBits) :
    unpackSign b = 0#1 ↔ b.toNat < 2 ^ 63 := by
  have hb : b.toNat < 2 ^ 64 := b.isLt
  rw [← BitVec.toNat_inj, unpackSign, BitVec.toNat_cast, BitVec.extractLsb_toNat,
    Nat.shiftRight_eq_div_pow]
  change b.toNat / 2 ^ 63 % 2 ^ 1 = 0 ↔ _
  omega

theorem biased_ne_of_isFinite (h : v.isFinite = true) : v.toBits.toNat / 2 ^ 52 % 2 ^ 11 ≠ 2047 := by
  intro he
  rw [← UInt64.toNat_toBitVec, ← toNat_unpackExponent] at he
  have hx : @unpackExponent .binary64 v.toBits.toBitVec = -1#_ := BitVec.toNat_inj.1 he
  change (UnpackedFloat.unpack .binary64 v.toBits.toBitVec).isFinite = true at h
  rw [UnpackedFloat.unpack] at h
  dsimp only at h
  rw [if_pos hx] at h
  split at h <;> cases h

theorem isMagnitude_of_word (hf : v.isFinite = true) (h : v.toBits.toNat < 2 ^ 63) :
    IsMagnitude v := by
  have hb := biased_ne_of_isFinite hf
  have hs : ¬ 2 ^ 63 ≤ v.toBits.toNat := Nat.not_le.2 h
  simp only [IsMagnitude, Binary64.ofFloat, Binary64.ofWord, Nat.pow_eq, hb, hs, if_false,
    decide_false]
  split
  · exact ⟨_, _, rfl⟩
  · exact ⟨_, _, rfl⟩

/-- Whether a double has a sign can be told from its fields, unless it is no number. -/
theorem unpackSign_of_unsigned (hf : v.isFinite = true) (h : Unsigned (fields v)) :
    @unpackSign .binary64 v.toBits.toBitVec = 0#1 := by
  change Unsigned (UnpackedFloat.unpack .binary64 v.toBits.toBitVec) at h
  change (UnpackedFloat.unpack .binary64 v.toBits.toBitVec).isFinite = true at hf
  rw [← Sign.toBitVec_ofBitVec (unpackSign _)]
  have hs : Sign.ofBitVec (@unpackSign .binary64 v.toBits.toBitVec) = .positive := by
    rw [UnpackedFloat.unpack] at h hf
    dsimp only at h hf
    generalize Sign.ofBitVec _ = s at h hf ⊢
    split at hf
    · split at hf <;> cases hf
    · next he =>
      rw [if_neg he] at h
      split at h
      · split at h <;> (cases h; rfl)
      · cases h
        rfl
  rw [hs]
  rfl

theorem isMagnitude_of_unsigned (hf : v.isFinite = true) (h : Unsigned (fields v)) :
    IsMagnitude v := by
  apply isMagnitude_of_word hf
  rw [← UInt64.toNat_toBitVec, ← unpackSign_eq_zero_iff]
  exact unpackSign_of_unsigned hf h

theorem le_iff_compare {v w : Float} :
    v ≤ w ↔ (UnpackedFloat.compare (fields v) (fields w)).any (·.isLE) = true := by
  change decide ((UnpackedFloat.compare (fields v) (fields w)).any (·.isLE) = true) = true ↔ _
  rw [decide_eq_true_iff]

theorem fields_inj {v w : Float} (h : fields v = fields w) : v = w := by
  have hb := (unpack_inj_of_valid v.toModel.valid w.toModel.valid).1 h
  exact Float.toBits_inj.1 (UInt64.toBitVec_inj.1 hb)

theorem isMagnitude_of_nonneg (hf : v.isFinite = true) (h : 0 ≤ v) (hz : v ≠ -0) :
    IsMagnitude v := by
  apply isMagnitude_of_unsigned hf
  have h0 : fields 0 = .zero .positive := rfl
  rw [le_iff_compare, h0] at h
  cases hv : fields v with
  | notANumber => exact .notANumber
  | infinity s =>
    cases s with
    | positive => exact .infinity
    | negative =>
      rw [hv] at h
      cases h
  | zero s =>
    cases s with
    | positive => exact .zero
    | negative => exact absurd (fields_inj hv) hz
  | finite s m e hm =>
    cases s with
    | positive => exact .finite
    | negative =>
      rw [hv] at h
      cases h

/-! ### Zero without its sign -/

/-- Zero in place of a negative zero. -/
def dropZeroSign (v : Float) : Float := if v == 0 then 0 else v

theorem eq_zero_or_negZero (h : (v == 0) = true) : v = 0 ∨ v = -0 := by
  obtain ⟨-, -, rfl | ⟨rfl, -⟩ | ⟨rfl, -⟩⟩ := Float.beq_iff_ne_nan_and_eq.1 h
  · exact .inl rfl
  · exact .inl rfl
  · exact .inr rfl

theorem dropZeroSign_eq_self (h : v ≠ -0) : dropZeroSign v = v := by
  unfold dropZeroSign
  split
  · next hz => exact ((eq_zero_or_negZero hz).resolve_right h).symm
  · rfl

theorem isMagnitude_dropZeroSign (hf : v.isFinite = true) (h : 0 ≤ v) : IsMagnitude (dropZeroSign v) := by
  by_cases hz : v = -0
  · subst hz
    exact ⟨0, -1074, rfl⟩
  · rw [dropZeroSign_eq_self hz]
    exact isMagnitude_of_nonneg hf h hz

/-! ### Numbers that are read -/

theorem Ratio.toWord_le (r : Ratio) : r.toWord ≤ 2047 * 2 ^ 52 := by
  rw [toWord]
  split
  · exact Nat.zero_le _
  · exact Nat.min_le_right _ _

theorem Ratio.unsigned_toFloat (r : Ratio) : Unsigned (fields (r.toFloat false)) := by
  refine unsigned_fields_pack (unsigned_of_unpackSign ?_)
  have hw := r.toWord_le
  rw [unpackSign_eq_zero_iff, UInt64.toNat_toBitVec, if_neg Bool.false_ne_true, Nat.zero_add,
    Nat.toUInt64_eq, UInt64.toNat_ofNat_of_lt']
  · omega
  · change r.toWord < 2 ^ 64
    omega

/-- A decimal is read as a number without a sign. -/
theorem Decimal.unsigned_toFloat (d : Decimal) : Unsigned (fields (d.toFloat false)) := by
  unfold toFloat
  split
  · exact Ratio.unsigned_toFloat _
  · split
    · exact Ratio.unsigned_toFloat _
    · split
      · exact Ratio.unsigned_toFloat _
      · exact Ratio.unsigned_toFloat _

end Relief.Number
