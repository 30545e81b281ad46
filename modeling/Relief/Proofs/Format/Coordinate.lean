import Mathlib
import Relief.Format.Coordinate
import Relief.Proofs.Number.Numeral

/-!
Texts of coordinates hold no character that a file format could take for its own, and a fixed number of
places never fails where few are asked for.
-/
namespace Relief.Number

variable {P : Char → Prop}

theorem forall_mem_layPlaces (hd : ∀ c : Char, c.isDigit = true → P c) (hp : P '.')
    (places : Int) (n : Nat) : ∀ c ∈ layPlaces places n, P c := by
  have ht := plainDigits_toDigits n
  have hz := plainDigits_zeroDigits
  intro c hc
  cases places with
  | ofNat p =>
    have hds : PlainDigits (padLeft (p + 1) (Nat.toDigits 10 n)) := (hz _).append ht
    simp only [layPlaces] at hc
    split at hc
    · exact hd c (hds c (List.mem_of_mem_take hc))
    · obtain hc | hc := List.mem_append.1 hc
      · exact hd c (hds c (List.mem_of_mem_take hc))
      · obtain rfl | hc := List.mem_cons.1 hc
        · exact hp
        · exact hd c (hds c (List.mem_of_mem_drop hc))
  | negSucc p =>
    simp only [layPlaces] at hc
    split at hc
    · exact hd c (hz 1 c hc)
    · exact hd c ((ht.append (hz _)) c hc)

theorem layPlaces_ne_nil (places : Int) (n : Nat) : layPlaces places n ≠ [] := by
  cases places with
  | ofNat p =>
    have hlen : p + 1 ≤ (padLeft (p + 1) (Nat.toDigits 10 n)).length := by
      simp only [padLeft, zeroDigits, List.length_append, List.length_replicate]
      omega
    simp only [layPlaces]
    split
    · rw [ne_eq, List.take_eq_nil_iff, not_or]
      exact ⟨by omega, List.ne_nil_of_length_pos (by omega)⟩
    · simp
  | negSucc p =>
    simp only [layPlaces]
    split <;> simp [Nat.toDigits_ne_nil]

/-! ### Rounding to places -/

/-- The exact magnitude of a finite double. -/
def magnitude (v : Float) : ℚ :=
  match Binary64.ofFloat v with
  | .finite _ m e => m * 2 ^ e
  | _ => 0

theorem magnitude_eq {v : Float} {s : Bool} {m : Nat} {e : Int}
    (hv : Binary64.ofFloat v = .finite s m e) : magnitude v = m * 2 ^ e := by
  rw [magnitude, hv]

/-- A quotient is rounded to the whole number below it and a half. -/
theorem Ratio.round_up_eq_floor {r : Ratio} (hd : 0 < r.den) : r.round .up = ⌊r.value + 1 / 2⌋₊ := by
  have hd' : (0 : ℚ) < r.den := Nat.cast_pos.2 hd
  have hv : r.value + 1 / 2 = ((2 * r.num + r.den : ℕ) : ℚ) / ((2 * r.den : ℕ) : ℚ) := by
    rw [value]
    push_cast
    field_simp
  rw [round, roundDiv_up hd, hv, Nat.floor_div_eq_div]

theorem toPlaces_up_eq_floor (places : Int) (m : Nat) (e : Int) :
    toPlaces places .up m e = ⌊(m * 2 ^ e * 10 ^ places + 1 / 2 : ℚ)⌋₊ := by
  have hd : 0 < ((Binary64.ratio m e).scale 10 places).den :=
    Ratio.den_scale_pos (Binary64.den_ratio_pos m e) (by decide) places
  rw [toPlaces, Ratio.round_up_eq_floor hd, Ratio.value_scale, Binary64.value_ratio, Nat.cast_ofNat]

end Relief.Number

namespace Relief.Format

open Relief.Number

/-! ### Characters of coordinates -/

/-- A visible ASCII character other than those that enclose or separate fields. -/
def IsPlainMark (c : Char) : Prop :=
  ' ' < c ∧ c ≤ '~' ∧ c ≠ '"' ∧ c ≠ ','

instance : DecidablePred IsPlainMark := fun _ => inferInstanceAs (Decidable (_ ∧ _ ∧ _ ∧ _))

theorem isPlainMark_of_isDigit {c : Char} (h : c.isDigit = true) : IsPlainMark c := by
  obtain ⟨h1, h2⟩ := Char.isDigit_iff_toNat.1 h
  refine ⟨?_, ?_, ?_, ?_⟩
  · exact Nat.lt_of_lt_of_le (by decide : ' '.toNat < 48) h1
  · exact h2.trans (by decide : 57 ≤ '~'.toNat)
  · rintro rfl
    exact absurd h1 (by decide)
  · rintro rfl
    exact absurd h1 (by decide)

theorem isPlainMark_of_printed {w : List Char} {d : Decimal} (h : Printed w d) :
    ∀ c ∈ w, IsPlainMark c :=
  h.forall_mem (fun _ => isPlainMark_of_isDigit) (by decide) (by decide) (by decide) (by decide)

theorem isPlainMark_sign {ds : List Char} (negative : Bool) (h : ∀ c ∈ ds, IsPlainMark c) :
    ∀ c ∈ sign negative ds, IsPlainMark c := by
  cases negative with
  | false => exact h
  | true => exact List.forall_mem_cons.2 ⟨by decide, h⟩

theorem sign_ne_nil {ds : List Char} (negative : Bool) (h : ds ≠ []) : sign negative ds ≠ [] := by
  cases negative with
  | false => exact h
  | true => exact List.cons_ne_nil _ _

/-- Marks of a word that could stand between separators. -/
structure IsPlainWord (w : List Char) : Prop where
  ne_nil : w ≠ []
  marks : ∀ c ∈ w, IsPlainMark c

theorem isPlainWord_of_all {w : List Char} (hn : w ≠ []) (h : w.all (IsPlainMark ·) = true) :
    IsPlainWord w :=
  ⟨hn, by simpa using h⟩

theorem IsPlainWord.sign {ds : List Char} (h : IsPlainWord ds) (negative : Bool) :
    IsPlainWord (Number.sign negative ds) :=
  ⟨sign_ne_nil negative h.ne_nil, isPlainMark_sign negative h.marks⟩

theorem isPlainWord_coordinateText (v : Float) : IsPlainWord (coordinateText v).toList := by
  rw [coordinateText, Layout.print, Layout.printWith]
  split
  · exact isPlainWord_of_all (w := "NaN".toList) (by decide) (by decide)
  · rw [String.toList_ofList]
    exact (isPlainWord_of_all (w := "Infinity".toList) (by decide) (by decide)).sign _
  · next m e _ =>
    obtain ⟨d, hd, -⟩ := printed_magnitude (l := coordinate) (.inl rfl) (shortest m e)
    rw [String.toList_ofList]
    exact IsPlainWord.sign ⟨hd.ne_nil, isPlainMark_of_printed hd⟩ _

theorem isPlainWord_placesText (places : Int) (v : Float) :
    IsPlainWord (placesText places v).toList := by
  rw [placesText]
  split
  · split
    · rw [String.toList_ofList]
      exact IsPlainWord.sign ⟨layPlaces_ne_nil _ _,
        forall_mem_layPlaces (fun _ => isPlainMark_of_isDigit) (by decide) _ _⟩ _
    · exact isPlainWord_coordinateText v
  · exact isPlainWord_coordinateText v

/-! ### Few places never fail -/

theorem ofFloat_fixedLimit : Binary64.ofFloat fixedLimit = .finite false 7629394531250000 17 := by
  decide

theorem abs_lt_fixedLimit_iff {v : Float} {s : Bool} {m : Nat} {e : Int}
    (hv : Binary64.ofFloat v = .finite s m e) : v.abs < fixedLimit ↔ magnitude v < 10 ^ 21 := by
  have hl : ((7629394531250000 : ℕ) : ℚ) * 2 ^ (17 : ℤ) = 10 ^ 21 := by norm_num
  rw [abs_lt_iff_value hv ofFloat_fixedLimit (by decide), hl, magnitude_eq hv]

theorem isTooPrecise_eq_false_of_floor_lt {places : Int} {v : Float}
    (h : ⌊magnitude v * 10 ^ places + 1 / 2⌋₊ < 10 ^ 28) : isTooPrecise places v = false := by
  unfold isTooPrecise
  split
  · next s m e hv =>
    rw [magnitude_eq hv, ← toPlaces_up_eq_floor] at h
    rw [Bool.and_eq_false_iff]
    right
    rw [decide_eq_false_iff_not, Nat.not_le]
    exact h
  · rfl

/-- What is kept in places is smaller than `10 ^ 21`. -/
theorem isTooPrecise_eq_false {places : Int} {v : Float} (h : v.abs < fixedLimit) (hp : places ≤ 6) :
    isTooPrecise places v = false := by
  have hm : magnitude v < 10 ^ 21 := by
    cases hv : Binary64.ofFloat v with
    | finite s m e => exact (abs_lt_fixedLimit_iff hv).1 h
    | nan | infinite =>
      rw [magnitude, hv]
      norm_num
  have h10 : (10 : ℚ) ^ places ≤ 10 ^ (6 : ℤ) := zpow_le_zpow_right₀ (by norm_num) hp
  apply isTooPrecise_eq_false_of_floor_lt
  rw [Nat.floor_lt' (by norm_num)]
  calc magnitude v * 10 ^ places + 1 / 2 ≤ 10 ^ 21 * 10 ^ (6 : ℤ) + 1 / 2 := by gcongr
    _ < ((10 ^ 28 : ℕ) : ℚ) := by norm_num

/-- Places can be had if the rounded number has few enough digits. -/
theorem toFixed_eq_ok_of_precise {places : Int} {v : Float} (h0 : 0 ≤ places) (h : places ≤ maxPlaces)
    (hp : isTooPrecise places v = false) : toFixed places v = .ok (placesText places v) := by
  have h1 : maxShift = 2000054 := rfl
  have h2 : maxUnit = 999999 := rfl
  have h3 : maxPlaces = 1000026 := rfl
  unfold toFixed
  by_cases hv : v.abs < fixedLimit
  · rw [if_neg (by simp [hv]), if_neg (by omega), if_neg (by omega)]
    dsimp only
    rw [min_eq_left h, hp]
    rfl
  · rw [if_pos (by simp [hv]), placesText, if_neg hv]

/-- So few places can always be had. -/
theorem toFixed_eq_ok {places : Int} (h0 : 0 ≤ places) (h : places ≤ 6) (v : Float) :
    toFixed places v = .ok (placesText places v) := by
  by_cases hv : v.abs < fixedLimit
  · exact toFixed_eq_ok_of_precise h0 (h.trans (by decide)) (isTooPrecise_eq_false hv h)
  · rw [toFixed, if_pos (by simp [hv]), placesText, if_neg hv]

end Relief.Format
