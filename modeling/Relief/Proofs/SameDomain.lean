import Relief.Mesh.Sample
import Relief.Proofs.Number.Double

/-!
Domains with the same bounds have the same grid, although a bound may be either of the two zeros.
-/
namespace Relief

open Relief.Number

namespace Domain

theorem line_eq {low low' high high' : Float} (hlt : low < high) (hlt' : low' < high')
    (hlow : (low == low') = true) (hhigh : (high == high') = true) (n k : Nat) :
    line low (high - low) n k = line low' (high' - low') n k := by
  obtain rfl | ⟨hz, hz'⟩ := eq_or_isZero hlow
  · obtain rfl | ⟨hh, hh'⟩ := eq_or_isZero hhigh
    · rfl
    · have hn : ¬ IsZero low := fun hz => not_isZero_of_lt hlt hz hh
      rw [zero_sub_eq hh hh' hn]
  · obtain rfl | ⟨hh, hh'⟩ := eq_or_isZero hhigh
    · have hn := not_isZero_of_lt hlt hz
      rw [← sub_zero_eq hz hz' hn]
      apply add_zero_eq hz hz'
      have hm := unsigned_mul (unsigned_sub_of_lt hlt hz) (unsigned_ofNat k)
      exact unsigned_fields_pack (unsigned_div (unsigned_fields_pack hm) (unsigned_ofNat n))
    · exact absurd hh (not_isZero_of_lt hlt hz)

/-- Domains that are the same by value have the same grid, bit for bit. -/
theorem grid_eq {d d' : Domain Float} (h : d.same d' = true) :
    d.resolution = d'.resolution ∧ d.xAt = d'.xAt ∧ d.yAt = d'.yAt := by
  simp only [same, Bool.and_eq_true, beq_iff_eq] at h
  obtain ⟨⟨⟨⟨hx, hx'⟩, hy⟩, hy'⟩, hn⟩ := h
  refine ⟨hn, funext fun k => ?_, funext fun k => ?_⟩
  · simp only [xAt, xSpan, hn]
    exact line_eq d.xmin_lt_xmax d'.xmin_lt_xmax hx hx' _ k
  · simp only [yAt, ySpan, hn]
    exact line_eq d.ymin_lt_ymax d'.ymin_lt_ymax hy hy' _ k

theorem ofBounds_self (d : Domain Float) :
    ofBounds d.xmin d.xmax d.ymin d.ymax d.resolution d.resolution_pos = .ok d := by
  have hx0 : d.xmin.isFinite = true := d.x_finite.1
  have hx1 : d.xmax.isFinite = true := d.x_finite.2
  have hy0 : d.ymin.isFinite = true := d.y_finite.1
  have hy1 : d.ymax.isFinite = true := d.y_finite.2
  rw [ofBounds, dif_pos hx0, dif_pos hx1, dif_pos hy0, dif_pos hy1,
    dif_pos d.xmin_lt_xmax, dif_pos d.ymin_lt_ymax]

theorem same_self (d : Domain Float) : d.same d = true := by
  simp only [same, Bool.and_eq_true, beq_self_eq_true, and_true]
  exact ⟨⟨⟨beq_self d.x_finite.1, beq_self d.x_finite.2⟩, beq_self d.y_finite.1⟩,
    beq_self d.y_finite.2⟩

end Domain

/-- The surface of a formula depends on the domain by value only. -/
theorem Mesh.ofEvaluator_eq {d d' : Domain Float} (h : d.same d' = true) (f : Evaluator) :
    Mesh.ofEvaluator f d = Mesh.ofEvaluator f d' := by
  obtain ⟨hn, hx, hy⟩ := Domain.grid_eq h
  unfold ofEvaluator gridX gridY ofHeights Domain.side
  rw [hx, hy, hn]

end Relief
