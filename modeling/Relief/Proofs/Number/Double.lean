import Mathlib
import Relief.Scalar

/-!
Doubles by their fields: doubles that compare as equal differ at most in the sign of a zero, and that
sign is lost where something without a sign is added.
-/
namespace Relief.Number

open Float.Model Float.Model.UnpackedFloat

/-- What a double stands for. -/
def fields (v : Float) : UnpackedFloat := v.toModel.unpack

theorem lt_iff_compare {v w : Float} :
    v < w ↔ UnpackedFloat.compare (fields v) (fields w) = some .lt := by
  change decide ((UnpackedFloat.compare (fields v) (fields w) == some .lt) = true) = true ↔ _
  rw [decide_eq_true_iff, beq_iff_eq]

def IsZero (v : Float) : Prop := ∃ s, fields v = .zero s

/-- Doubles that are the same number are the same double, unless they are zero. -/
theorem eq_or_isZero {v w : Float} (h : (v == w) = true) : v = w ∨ (IsZero v ∧ IsZero w) := by
  have hp : IsZero 0 := ⟨.positive, rfl⟩
  have hn : IsZero (-0) := ⟨.negative, rfl⟩
  obtain ⟨-, -, rfl | ⟨rfl, rfl⟩ | ⟨rfl, rfl⟩⟩ := Float.beq_iff_ne_nan_and_eq.1 h
  · exact .inl rfl
  · exact .inr ⟨hp, hn⟩
  · exact .inr ⟨hn, hp⟩

theorem beq_self {v : Float} (h : v.isFinite = true) : (v == v) = true := by
  rw [Float.beq_self_iff]
  rintro rfl
  revert h
  decide

/-! ### Doubles without a sign -/

/-- Not negative, and not a negative zero either. -/
inductive Unsigned : UnpackedFloat → Prop where
  | notANumber : Unsigned .notANumber
  | infinity : Unsigned (.infinity .positive)
  | zero : Unsigned (.zero .positive)
  | finite {m : Nat} {e : Int} {hm : 0 < m} : Unsigned (.finite .positive m e hm)

theorem unpackSign_pack {u : UnpackedFloat} (h : Unsigned u) :
    unpackSign (UnpackedFloat.pack .binary64 u) = 0#1 := by
  cases h with
  | notANumber | infinity | zero => decide
  | finite =>
    rw [UnpackedFloat.pack]
    dsimp only
    split
    · decide
    · split <;> exact unpackSign_packComponents _ _ _

theorem unsigned_of_unpackSign {b : BitVec Format.binary64.numBits} (h : unpackSign b = 0#1) :
    Unsigned (UnpackedFloat.unpack .binary64 b) := by
  have hs : Sign.ofBitVec (unpackSign b) = .positive := by rw [h]; rfl
  rw [UnpackedFloat.unpack]
  dsimp only
  rw [hs]
  split
  · split
    · exact .infinity
    · exact .notANumber
  · split
    · split
      · exact .zero
      · exact .finite
    · exact .finite

theorem unsigned_fields_pack {u : UnpackedFloat} (h : Unsigned u) :
    Unsigned (fields (.ofModel (.pack u))) :=
  unsigned_of_unpackSign (unpackSign_pack h)

theorem unsigned_roundWithAccuracy (m : Nat) (e : Int) (acc : Accuracy) :
    Unsigned (roundWithAccuracy .binary64 .positive m e acc) := by
  rw [roundWithAccuracy]
  dsimp only
  split
  · exact .zero
  · exact .finite

theorem unsigned_mul {u u' : UnpackedFloat} (h : Unsigned u) (h' : Unsigned u') :
    Unsigned (UnpackedFloat.mul .binary64 u u') := by
  cases h <;> cases h' <;> first
    | exact .notANumber | exact .infinity | exact .zero | exact unsigned_roundWithAccuracy _ _ _

theorem unsigned_div {u u' : UnpackedFloat} (h : Unsigned u) (h' : Unsigned u') :
    Unsigned (UnpackedFloat.div .binary64 u u') := by
  cases h <;> cases h' <;> first
    | exact .notANumber | exact .infinity | exact .zero | exact unsigned_roundWithAccuracy _ _ _

theorem unsigned_normalize (n : Nat) (e : Int) :
    Unsigned (UnpackedFloat.normalize .binary64 n e .positive) := by
  rw [UnpackedFloat.normalize]
  split
  · next h =>
    rw [Int.compare_eq_lt] at h
    omega
  · exact .zero
  · exact unsigned_roundWithAccuracy _ _ _

theorem unsigned_ofScientific (n : Nat) :
    Unsigned (UnpackedFloat.ofScientific .binary64 n 0) := by
  rw [UnpackedFloat.ofScientific]
  split
  · exact .zero
  · rw [if_neg (by decide)]
    split
    · exact .zero
    · rw [if_pos (Int.le_refl 0)]
      exact unsigned_mul .finite .finite

theorem unsigned_ofNat (n : Nat) : Unsigned (fields (Float.ofNat n)) := by
  have h1 : @unpackSign .binary64 (getElem Float.exactlyRepresentablePowersOfTen 0
      (by decide)).toModel.toBits.toBitVec = 0#1 := by decide
  change Unsigned (fields (Float.ofScientific n false 0))
  rw [Float.ofScientific]
  split
  · refine unsigned_fields_pack (unsigned_mul ?_ ?_)
    · exact unsigned_fields_pack (unsigned_normalize _ _)
    · exact unsigned_of_unpackSign h1
  · exact unsigned_fields_pack (unsigned_ofScientific n)

/-- The sign of a zero is lost where something without a sign is added. -/
theorem add_zero_eq {v v' w : Float} (h : IsZero v) (h' : IsZero v') (hw : Unsigned (fields w)) :
    v + w = v' + w := by
  obtain ⟨s, hs⟩ := h
  obtain ⟨s', hs'⟩ := h'
  have he : UnpackedFloat.add .binary64 (fields v) (fields w) =
      UnpackedFloat.add .binary64 (fields v') (fields w) := by
    rw [hs, hs']
    cases hf : fields w with
    | zero t =>
      rw [hf] at hw
      cases hw
      cases s <;> cases s' <;> rfl
    | _ => rfl
  exact congrArg (fun u => Float.ofModel (.pack u)) he

/-- The sign of a zero is lost in a difference to any other number. -/
theorem sub_zero_eq {v w w' : Float} (h : IsZero w) (h' : IsZero w') (hv : ¬ IsZero v) :
    v - w = v - w' := by
  obtain ⟨s, hs⟩ := h
  obtain ⟨s', hs'⟩ := h'
  have he : UnpackedFloat.sub .binary64 (fields v) (fields w) =
      UnpackedFloat.sub .binary64 (fields v) (fields w') := by
    rw [hs, hs']
    cases hf : fields v with
    | zero t => exact absurd ⟨t, hf⟩ hv
    | _ => rfl
  exact congrArg (fun u => Float.ofModel (.pack u)) he

theorem zero_sub_eq {v v' w : Float} (h : IsZero v) (h' : IsZero v') (hw : ¬ IsZero w) :
    v - w = v' - w := by
  obtain ⟨s, hs⟩ := h
  obtain ⟨s', hs'⟩ := h'
  have he : UnpackedFloat.sub .binary64 (fields v) (fields w) =
      UnpackedFloat.sub .binary64 (fields v') (fields w) := by
    rw [hs, hs']
    cases hf : fields w with
    | zero t => exact absurd ⟨t, hf⟩ hw
    | _ => rfl
  exact congrArg (fun u => Float.ofModel (.pack u)) he

theorem not_isZero_of_lt {v w : Float} (h : v < w) (hv : IsZero v) : ¬ IsZero w := by
  rintro ⟨t, ht⟩
  obtain ⟨s, hs⟩ := hv
  rw [lt_iff_compare, hs, ht] at h
  cases h

/-- What is greater than zero has no sign, and neither has its difference to zero. -/
theorem unsigned_sub_of_lt {v w : Float} (h : v < w) (hv : IsZero v) :
    Unsigned (fields (w - v)) := by
  obtain ⟨s, hs⟩ := hv
  rw [lt_iff_compare, hs] at h
  refine unsigned_fields_pack (u := UnpackedFloat.sub .binary64 (fields w) (fields v)) ?_
  rw [hs]
  cases hf : fields w with
  | notANumber => exact .notANumber
  | infinity t =>
    rw [hf] at h
    cases t with
    | positive => exact .infinity
    | negative => cases h
  | zero t =>
    rw [hf] at h
    cases h
  | finite t m e hm =>
    rw [hf] at h
    cases t with
    | positive => exact .finite
    | negative => cases h

end Relief.Number
