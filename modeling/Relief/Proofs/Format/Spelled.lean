import Mathlib
import Relief.Format.Coordinate
import Relief.Proofs.Number.Fewest
import Relief.Proofs.Number.Numeral

/-!
Coordinates in their shortest digits. The text of a finite double spells the same number as its general form,
in as few digits as any decimal that is read as it, and is laid out by the place of its point alone.
-/
namespace Relief.Number

variable {v : Float} {s : Bool} {m : Nat} {e : Int} {w : List Char} {d : Decimal} {l : Layout}

/-! ### What a numeral spells -/

theorem Decimal.value_point (d : Decimal) :
    d.value = d.coefficient * 10 ^ (d.point - (Nat.toDigits 10 d.coefficient).length) := by
  rw [value, point, digits, add_sub_cancel_left]

/-- The rational number that a numeral spells, before it is rounded to a double. -/
def denoted? (t : String) : Option ℚ :=
  (decimalPart? (signed (plain t)).2).map fun d =>
    if (signed (plain t)).1 then -d.value else d.value

theorem denoted?_of_printed (h : Printed w d) (negative : Bool) :
    denoted? (String.ofList (sign negative w)) = some (if negative then -d.value else d.value) := by
  rw [denoted?, signed_plain_of_printed h, decimalPart?_of_printed h, Option.map_some]

/-- All layouts spell the value of the shortest digits, with the sign of the double. -/
theorem denoted?_print (hl : l.wholeMark = "" ∨ l.wholeMark = ".0")
    (hv : Binary64.ofFloat v = .finite s m e) :
    denoted? (l.print v) = some (if v < 0 then -(shortest m e).value else (shortest m e).value) := by
  obtain ⟨d, hd, h⟩ := printed_magnitude hl (shortest m e)
  rw [Layout.print, Layout.printWith, hv]
  dsimp only
  rw [denoted?_of_printed hd, h]
  congr 1
  obtain rfl | hm := Nat.eq_zero_or_pos m
  · rw [value_shortest_zero, neg_zero, ite_self, ite_self]
  · have hs : (s && (l.signedZero || m != 0)) = s := by
      rw [bne_iff_ne.2 hm.ne', Bool.or_true, Bool.and_true]
    rw [hs]
    exact if_congr (by rw [lt_zero_iff hv, and_iff_left hm]) rfl rfl

end Relief.Number

namespace Relief.Format

open Relief.Number

/-! ### Layouts -/

/-- How the significant digits `ds` with the point behind the first `n` of them are laid out: up to the
twenty-first place among the digits or padded with zeros, down to five zeros in front, or else with an
exponent. -/
inductive LaidOut (ds : List Char) : Int → List Char → Prop where
  | whole {n : Nat} : ds.length ≤ n → n ≤ 21 → LaidOut ds n (ds ++ zeroDigits (n - ds.length))
  | inside {n : Nat} : 0 < n → n < ds.length → n ≤ 21 →
    LaidOut ds n (ds.take n ++ '.' :: ds.drop n)
  | small {n : Nat} : n < 6 → LaidOut ds (-n) ('0' :: '.' :: (zeroDigits n ++ ds))
  | oneDigit {n : Int} {c : Char} : n ≤ -6 ∨ 21 < n → ds = [c] →
    LaidOut ds n (c :: 'e' :: (if 0 ≤ n - 1 then '+' else '-') :: Nat.toDigits 10 (n - 1).natAbs)
  | mantissa {n : Int} {c : Char} {cs : List Char} : n ≤ -6 ∨ 21 < n → ds = c :: cs → cs ≠ [] →
    LaidOut ds n
      (c :: '.' :: cs ++ 'e' :: (if 0 ≤ n - 1 then '+' else '-') :: Nat.toDigits 10 (n - 1).natAbs)

theorem exponent_coordinate (e : Int) : coordinate.exponent e =
    (if 0 ≤ e then '+' else '-') :: Nat.toDigits 10 e.natAbs := by
  have hpad : padLeft coordinate.exponentWidth (Nat.toDigits 10 e.natAbs) =
      Nat.toDigits 10 e.natAbs := by
    have hpos : 0 < (Nat.toDigits 10 e.natAbs).length := List.length_pos_iff.2 Nat.toDigits_ne_nil
    rw [padLeft, Nat.sub_eq_zero_of_le (show coordinate.exponentWidth ≤ _ from hpos)]
    rfl
  rw [Layout.exponent, hpad]
  by_cases he : e < 0
  · rw [if_pos he, if_neg (not_le.2 he)]
  · rw [if_neg he, if_pos (not_lt.1 he)]

theorem laidOut_scientific {ds : List Char} {n : Int} (hds : ds ≠ []) (hn : n ≤ -6 ∨ 21 < n) :
    LaidOut ds n (coordinate.scientific ds n) := by
  unfold Layout.scientific
  rw [exponent_coordinate]
  match ds, hds with
  | [c], _ => exact .oneDigit hn rfl
  | c :: d :: cs, _ => exact .mantissa hn rfl (List.cons_ne_nil d cs)

theorem laidOut_positional {ds : List Char} {n : Int} (h5 : -6 < n) (h21 : n ≤ 21) :
    LaidOut ds n (coordinate.positional ds n) := by
  unfold Layout.positional
  split
  · next h0 =>
    obtain ⟨k, hk⟩ := Int.eq_ofNat_of_zero_le (neg_nonneg.2 h0)
    obtain rfl := neg_eq_iff_eq_neg.1 hk
    rw [Int.natAbs_neg, Int.natAbs_natCast]
    exact .small (by omega)
  · next h0 =>
    obtain ⟨k, rfl⟩ := Int.eq_ofNat_of_zero_le (by omega : 0 ≤ n)
    rw [Int.toNat_natCast]
    split
    · next hk =>
      rw [show coordinate.wholeMark.toList = [] from rfl, List.append_nil]
      exact .whole hk (by omega)
    · exact .inside (by omega) (by omega) (by omega)

theorem laidOut_magnitude (d : Decimal) : LaidOut d.digits d.point (coordinate.magnitude d) := by
  have h5 : coordinate.lowest = -5 := rfl
  have h21 : coordinate.highest = 21 := rfl
  unfold Layout.magnitude
  split
  · exact laidOut_positional (by omega) (by omega)
  · exact laidOut_scientific d.digits_ne_nil (by omega)

/-! ### Texts -/

theorem coordinateText_eq {v : Float} {s : Bool} {m : Nat} {e : Int}
    (hv : Binary64.ofFloat v = .finite s m e) : coordinateText v =
      String.ofList (sign (decide (v < 0)) (coordinate.magnitude (shortest m e))) := by
  rw [coordinateText, Layout.print, Layout.printWith, hv, decide_lt_zero hv]
  rfl

/-- The text of a finite double spells the number of its general form and is read as the double. A zero is one
digit without a sign, and any other double has as few digits as are needed, the last of them not a zero. -/
theorem coordinateText_spells {v : Float} (hv : v.isFinite = true) : ∃ q,
    denoted? (generalText v) = some q ∧ denoted? (coordinateText v) = some q ∧
    readFloat? (generalText v) = some v ∧ readFloat? (coordinateText v) = some (dropZeroSign v) ∧
    ((v == 0) = true → q = 0 ∧ coordinateText v = "0") ∧
    ((v == 0) = false → ∃ (c : Nat) (n : Int) (w : List Char),
      c % 10 ≠ 0 ∧ |q| = c * 10 ^ (n - (Nat.toDigits 10 c).length) ∧
      (∀ d : Decimal, d.toFloat (decide (v < 0)) = v → (Nat.toDigits 10 c).length ≤ d.digits.length) ∧
      LaidOut (Nat.toDigits 10 c) n w ∧
      coordinateText v = String.ofList (sign (decide (v < 0)) w)) := by
  have hgeneral := readFloat?_print (l := general) (.inr rfl) hv
  have hcoordinate := readFloat?_print (l := coordinate) (.inl rfl) hv
  obtain ⟨s, m, e, hv⟩ := exists_finite hv
  refine ⟨_, denoted?_print (.inr rfl) hv, denoted?_print (.inl rfl) hv, hgeneral, hcoordinate,
    fun h0 => ?_, fun h0 => ?_⟩
  · obtain rfl := (beq_zero_iff hv).1 h0
    have hn : ¬ v < 0 := fun hlt => lt_irrefl 0 ((lt_zero_iff hv).1 hlt).2
    refine ⟨?_, ?_⟩
    · rw [value_shortest_zero, neg_zero, ite_self]
    · rw [coordinateText_eq hv, decide_eq_false hn, shortest, if_pos rfl]
      rfl
  · have hm : 0 < m := by
      rw [Nat.pos_iff_ne_zero, ne_eq, ← beq_zero_iff hv, h0]
      exact Bool.false_ne_true
    have hs : decide (v < 0) = s := by
      rw [decide_lt_zero hv, bne_iff_ne.2 hm.ne', Bool.and_true]
    have hc := canonical_of_finite hv
    have hpos : 0 < (shortest m e).value := (near_shortest hc hm).pos hm
    refine ⟨(shortest m e).coefficient, (shortest m e).point, _, coefficient_shortest_mod hc hm, ?_,
      fun d hd => length_digits_shortest_le hv hm (hs ▸ hd), laidOut_magnitude _,
      coordinateText_eq hv⟩
    split
    · rw [abs_neg, abs_of_pos hpos, Decimal.value_point]
    · rw [abs_of_pos hpos, Decimal.value_point]

/-- The general form has two digits in its exponent, the coordinate as few as it needs. -/
theorem coordinateText_spells_small :
    (-1.5e-7 : Float).isFinite = true ∧ ((-1.5e-7 : Float) == 0) = false ∧ ∃ q,
      denoted? "-1.5e-07" = some q ∧ denoted? "-1.5e-7" = some q ∧
      readFloat? "-1.5e-7" = some (-1.5e-7) ∧ ∃ (c : Nat) (n : Int) (w : List Char),
        c % 10 ≠ 0 ∧ |q| = c * 10 ^ (n - (Nat.toDigits 10 c).length) ∧
        LaidOut (Nat.toDigits 10 c) n w ∧ "-1.5e-7" = String.ofList ('-' :: w) := by
  have hf : (-1.5e-7 : Float).isFinite = true := by decide
  have h0 : ((-1.5e-7 : Float) == 0) = false := by decide
  have hgeneral : generalText (-1.5e-7) = "-1.5e-07" := by decide +kernel
  have hcoordinate : coordinateText (-1.5e-7) = "-1.5e-7" := by decide +kernel
  obtain ⟨q, hg, hc, -, hr, -, hn⟩ := coordinateText_spells hf
  obtain ⟨c, n, w, hmod, hq, -, hw, ht⟩ := hn h0
  rw [hgeneral] at hg
  rw [hcoordinate] at hc hr ht
  rw [dropZeroSign, h0, if_neg Bool.false_ne_true] at hr
  rw [decide_eq_true (by decide)] at ht
  exact ⟨hf, h0, q, hg, hc, hr, c, n, w, hmod, hq, hw, ht⟩

end Relief.Format
