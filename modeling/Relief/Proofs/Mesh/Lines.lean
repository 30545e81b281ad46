import Mathlib
import Relief.Proofs.Mesh.Level
import Relief.Proofs.Number.Operation
import Relief.Proofs.SameDomain

/-!
When the lines of a grid have finite coordinates. Bounds are finite and in order, but their difference and its
products with the numbers of the lines may be too large for doubles, and so may the last line. If none of these
is, all lines are finite.
-/
namespace Relief

open Number

namespace Domain

/-! ### Shares of a span -/

section Shares

variable {span : Float} {r k : Nat}

/-- The distance of a line from the first one. -/
def share (span : Float) (r k : Nat) : Float := span * Float.ofNat k / Float.ofNat r

/-- A span whose products with the numbers of the lines are finite. -/
structure Divisible (span : Float) (r : Nat) : Prop where
  nonneg : 0 ≤ exact span
  pos : 0 < r
  finite : (span * Float.ofNat r).isFinite = true

namespace Divisible

theorem isFinite_span (h : Divisible span r) : span.isFinite = true :=
  (isFinite_of_mul h.finite).1

theorem isFinite_count (h : Divisible span r) : (Float.ofNat r).isFinite = true :=
  (isFinite_of_mul h.finite).2

theorem one_le (h : Divisible span r) : 1 ≤ exact (Float.ofNat r) :=
  one_le_exact_ofNat h.pos h.isFinite_count

theorem isFinite_mul (h : Divisible span r) (hk : k ≤ r) : (span * Float.ofNat k).isFinite = true := by
  obtain ⟨hr, hlt⟩ := (isFinite_mul_ofNat_iff h.isFinite_span h.nonneg).1 h.finite
  have hle := mul_le_mul_of_nonneg_left (exact_ofNat_mono hk h.isFinite_count) h.nonneg
  exact (isFinite_mul_ofNat_iff h.isFinite_span h.nonneg).2 ⟨hk.trans_lt hr, hle.trans_lt hlt⟩

theorem nearest_mul (h : Divisible span r) (hk : k ≤ r) :
    Nearest (exact span * exact (Float.ofNat k)) (span * Float.ofNat k) :=
  Number.nearest_mul h.isFinite_span (isFinite_of_mul (h.isFinite_mul hk)).2

theorem exact_mul_nonneg (h : Divisible span r) (hk : k ≤ r) : 0 ≤ exact (span * Float.ofNat k) :=
  (h.nearest_mul hk).exact_nonneg (mul_nonneg h.nonneg (exact_ofNat_nonneg k))

theorem exact_mul_le (h : Divisible span r) (hk : k ≤ r) :
    exact (span * Float.ofNat k) ≤ exact (span * Float.ofNat r) :=
  (h.nearest_mul hk).mono (h.nearest_mul le_rfl) h.finite (mul_nonneg h.nonneg (exact_ofNat_nonneg k))
    (mul_le_mul_of_nonneg_left (exact_ofNat_mono hk h.isFinite_count) h.nonneg)

theorem nearest_share (h : Divisible span r) (hk : k ≤ r) :
    Nearest (exact (span * Float.ofNat k) / exact (Float.ofNat r)) (share span r k) :=
  nearest_div (h.isFinite_mul hk) h.isFinite_count (zero_lt_one.trans_le h.one_le).ne'

theorem quotient_nonneg (h : Divisible span r) (hk : k ≤ r) :
    0 ≤ exact (span * Float.ofNat k) / exact (Float.ofNat r) :=
  div_nonneg (h.exact_mul_nonneg hk) (exact_ofNat_nonneg r)

theorem isFinite_share (h : Divisible span r) (hk : k ≤ r) : (share span r k).isFinite = true := by
  rw [(h.nearest_share hk).isFinite_iff, abs_of_nonneg (h.quotient_nonneg hk)]
  calc exact (span * Float.ofNat k) / exact (Float.ofNat r)
      ≤ exact (span * Float.ofNat k) := div_le_self (h.exact_mul_nonneg hk) h.one_le
    _ ≤ |exact (span * Float.ofNat k)| := le_abs_self _
    _ < overflowBound := abs_exact_lt (h.isFinite_mul hk)

theorem exact_share_nonneg (h : Divisible span r) (hk : k ≤ r) : 0 ≤ exact (share span r k) :=
  (h.nearest_share hk).exact_nonneg (h.quotient_nonneg hk)

theorem exact_share_le (h : Divisible span r) (hk : k ≤ r) :
    exact (share span r k) ≤ exact (share span r r) :=
  (h.nearest_share hk).mono (h.nearest_share le_rfl) (h.isFinite_share le_rfl) (h.quotient_nonneg hk)
    (div_le_div_of_nonneg_right (h.exact_mul_le hk) (exact_ofNat_nonneg r))

/-- The last line is not beyond a power of two that the span is not beyond. -/
theorem exact_share_le_two_pow (h : Divisible span r) {j : Nat} (hj : exact span ≤ 2 ^ j) :
    exact (share span r r) ≤ 2 ^ j := by
  obtain ⟨m, e, hg, hm, hr⟩ := exists_significand h.isFinite_count h.one_le
  have hvalue : 2 ^ j * exact (Float.ofNat r) = m * 2 ^ (e + j) := by
    rw [hr, zpow_add₀ two_ne_zero, zpow_natCast]
    ring
  -- the number of steps times a power of two is a double, if it is not too large
  have hgrid : Binary64.Grid m (e + j) :=
    ⟨hg.significand_lt, hg.le_exponent.trans (by omega), fun _ => hm⟩
  have hmul : exact (span * Float.ofNat r) ≤ 2 ^ j * exact (Float.ofNat r) := by
    rw [hvalue]
    refine (h.nearest_mul le_rfl).exact_le_grid hgrid (mul_nonneg h.nonneg (exact_ofNat_nonneg r)) ?_
    rw [← hvalue]
    exact mul_le_mul_of_nonneg_right hj (exact_ofNat_nonneg r)
  exact (h.nearest_share le_rfl).exact_le_two_pow (h.quotient_nonneg le_rfl)
    ((div_le_iff₀ (zero_lt_one.trans_le h.one_le)).2 hmul)

end Divisible

end Shares

/-! ### Sides -/

/-- A side of a domain: its bounds and the number of steps in it. -/
structure Side where
  low : Float
  high : Float
  resolution : Nat
  low_finite : low.isFinite = true
  high_finite : high.isFinite = true
  low_lt_high : low < high
  resolution_pos : 0 < resolution

def xSide (d : Domain Float) : Side :=
  ⟨d.xmin, d.xmax, d.resolution, d.x_finite.1, d.x_finite.2, d.xmin_lt_xmax, d.resolution_pos⟩

def ySide (d : Domain Float) : Side :=
  ⟨d.ymin, d.ymax, d.resolution, d.y_finite.1, d.y_finite.2, d.ymin_lt_ymax, d.resolution_pos⟩

namespace Side

def span (s : Side) : Float := s.high - s.low

def lineAt (s : Side) (k : Nat) : Float := line s.low s.span s.resolution k

/-- The numbers from which the lines of a side are computed are in the range of doubles. -/
structure Fits (s : Side) : Prop where
  span : exact s.high - exact s.low < overflowBound
  count : s.resolution < overflowBound
  steps : exact s.span * exact (Float.ofNat s.resolution) < overflowBound
  last : exact s.low + exact (share s.span s.resolution s.resolution) < overflowBound

variable (s : Side)

theorem exact_low_lt_high : exact s.low < exact s.high :=
  exact_lt_of_lt s.low_finite s.high_finite s.low_lt_high

theorem nearest_span : Nearest (exact s.high - exact s.low) s.span :=
  nearest_sub s.high_finite s.low_finite

theorem isFinite_span_iff : s.span.isFinite = true ↔ exact s.high - exact s.low < overflowBound := by
  rw [s.nearest_span.isFinite_iff, abs_of_pos (sub_pos.2 s.exact_low_lt_high)]

theorem exact_span_nonneg : 0 ≤ exact s.span :=
  s.nearest_span.exact_nonneg (sub_nonneg.2 s.exact_low_lt_high.le)

theorem divisible_iff : Divisible s.span s.resolution ↔ exact s.high - exact s.low < overflowBound ∧
    s.resolution < overflowBound ∧
    exact s.span * exact (Float.ofNat s.resolution) < overflowBound := by
  rw [← s.isFinite_span_iff]
  constructor
  · intro h
    exact ⟨h.isFinite_span, (isFinite_mul_ofNat_iff h.isFinite_span h.nonneg).1 h.finite⟩
  · rintro ⟨hs, h⟩
    exact ⟨s.exact_span_nonneg, s.resolution_pos, (isFinite_mul_ofNat_iff hs s.exact_span_nonneg).2 h⟩

variable {s} in
theorem Fits.divisible (h : s.Fits) : Divisible s.span s.resolution :=
  s.divisible_iff.2 ⟨h.span, h.count, h.steps⟩

/-- Rounding keeps the order, so that the lines are finite if the last one is. -/
theorem isFinite_lines_iff : (∀ k ≤ s.resolution, (s.lineAt k).isFinite = true) ↔ s.Fits := by
  constructor
  · intro h
    obtain ⟨-, hshare⟩ := isFinite_of_add (h s.resolution le_rfl)
    obtain ⟨hspan, hcount, hsteps⟩ := s.divisible_iff.1
      ⟨s.exact_span_nonneg, s.resolution_pos, isFinite_of_div hshare⟩
    have hlast := (nearest_add s.low_finite hshare).isFinite_iff.1 (h s.resolution le_rfl)
    exact ⟨hspan, hcount, hsteps, (le_abs_self _).trans_lt hlast⟩
  · intro h k hk
    have hd := h.divisible
    have hlow := neg_lt_of_abs_lt (abs_exact_lt s.low_finite)
    have h0 := hd.exact_share_nonneg hk
    have hle := hd.exact_share_le hk
    have hlast := h.last
    refine (nearest_add s.low_finite (hd.isFinite_share hk)).isFinite_iff.2 (abs_lt.2 ⟨?_, ?_⟩) <;> linarith

theorem two_pow_mul_three_lt : (2 : ℚ) ^ 1022 * 3 < overflowBound := by
  have hpow : (2 : ℚ) ^ 1022 = 2 ^ 51 * 2 ^ (971 : ℤ) := by
    rw [← zpow_natCast, ← zpow_natCast, ← zpow_add₀ two_ne_zero]
    rfl
  calc (2 : ℚ) ^ 1022 * 3 = (2 ^ 51 * 3) * 2 ^ (971 : ℤ) := by
        rw [hpow]
        ring
    _ < (2 ^ 53 - 1 / 2) * 2 ^ (971 : ℤ) :=
        mul_lt_mul_of_pos_right (by norm_num) (zpow_pos two_pos _)
    _ = overflowBound := cast_overflowBound.symm

/-- If the steps are not too large, the last line is too large only between positive bounds near the greatest
double. -/
theorem fits_of_divisible (h : exact s.low ≤ 0 ∨ exact s.high ≤ 2 ^ 1023)
    (hd : Divisible s.span s.resolution) : s.Fits := by
  obtain ⟨hspan, hcount, hsteps⟩ := s.divisible_iff.1 hd
  refine ⟨hspan, hcount, hsteps, ?_⟩
  by_cases hneg : exact s.low ≤ 0
  · have hshare := (le_abs_self _).trans_lt (abs_exact_lt (hd.isFinite_share le_rfl))
    linarith
  · have hhigh := h.resolve_left hneg
    have hlt := s.exact_low_lt_high
    have hle (j : Nat) (hj : exact s.high - exact s.low ≤ 2 ^ j) :
        exact (share s.span s.resolution s.resolution) ≤ 2 ^ j :=
      hd.exact_share_le_two_pow (s.nearest_span.exact_le_two_pow (sub_nonneg.2 hlt.le) hj)
    have hsmall := hle 1022
    have hlarge := hle 1023
    have hbound := two_pow_mul_three_lt
    rw [pow_succ 2 1022] at hhigh hlarge
    generalize (2 : ℚ) ^ 1022 = p at *
    -- either the first line or the span is not above a quarter of the range
    by_cases hlow : exact s.low ≤ p
    · linarith [hlarge (by linarith)]
    · linarith [hsmall (by linarith)]

/-- Which of the numbers of a side are finite: its span, the steps, and the lines. -/
structure Finiteness (s : Side) (span : Float) (coordinates : Array Float) : Prop where
  span_iff : span.isFinite = true ↔ exact s.high - exact s.low < overflowBound
  step_iff : span.isFinite = true → ∀ k, (span * Float.ofNat k).isFinite = true ↔
    k < overflowBound ∧ exact span * exact (Float.ofNat k) < overflowBound
  coordinates_iff : (∀ v ∈ coordinates, v.isFinite = true) ↔ s.Fits
  coordinates_iff_steps : exact s.low ≤ 0 ∨ exact s.high ≤ 2 ^ 1023 →
    ((∀ v ∈ coordinates, v.isFinite = true) ↔ (span * Float.ofNat s.resolution).isFinite = true)

theorem finiteness : s.Finiteness s.span (.ofFn fun k : Fin (s.resolution + 1) => s.lineAt k) := by
  have hlines : (∀ v ∈ Array.ofFn fun k : Fin (s.resolution + 1) => s.lineAt k, v.isFinite = true) ↔
      s.Fits := by
    rw [← s.isFinite_lines_iff]
    constructor
    · exact fun h k hk => h _ (Array.mem_ofFn.2 ⟨⟨k, Nat.lt_succ_of_le hk⟩, rfl⟩)
    · intro h v hv
      obtain ⟨k, rfl⟩ := Array.mem_ofFn.1 hv
      exact h k (Nat.le_of_lt_succ k.isLt)
  refine ⟨s.isFinite_span_iff, fun hs k => isFinite_mul_ofNat_iff hs s.exact_span_nonneg, hlines,
    fun husual => ?_⟩
  rw [hlines]
  exact ⟨fun h => h.divisible.finite, fun h =>
    s.fits_of_divisible husual ⟨s.exact_span_nonneg, s.resolution_pos, h⟩⟩

end Side

end Domain

/-! ### Vertices -/

namespace Mesh

open Domain (Side)

variable {m : Mesh Float} {d : Domain Float} {value : Nat → Nat → Option Float}

/-- Heights are finite, so that a vertex is finite if its coordinates in the grid are. -/
theorem Samples.isFinite_vertices_iff (h : Samples m d value) :
    (∀ p ∈ m.vertices, p.x.isFinite = true ∧ p.y.isFinite = true ∧ p.z.isFinite = true) ↔
      (∀ v ∈ d.xs, v.isFinite = true) ∧ ∀ v ∈ d.ys, v.isFinite = true := by
  constructor
  · intro hp
    constructor <;> intro v hv <;> obtain ⟨k, rfl⟩ := Array.mem_ofFn.1 hv
    · obtain ⟨x, y, hx, -, hvertex⟩ := h.vertex k (Nat.le_of_lt_succ k.isLt) 0 (Nat.zero_le _)
      rw [Domain.xs, Array.getElem?_ofFn, dif_pos k.isLt] at hx
      cases hx
      exact (hp _ (Array.mem_of_getElem? hvertex)).1
    · obtain ⟨x, y, -, hy, hvertex⟩ := h.vertex 0 (Nat.zero_le _) k (Nat.le_of_lt_succ k.isLt)
      rw [Domain.ys, Array.getElem?_ofFn, dif_pos k.isLt] at hy
      cases hy
      exact (hp _ (Array.mem_of_getElem? hvertex)).2.1
  · rintro ⟨hxs, hys⟩ p hp
    obtain ⟨n, hn⟩ := Array.getElem?_of_mem hp
    obtain ⟨hlt, -⟩ := Array.getElem?_eq_some_iff.1 hn
    rw [h.size_vertices] at hlt
    obtain ⟨i, hi, j, hj, rfl⟩ := Grid.exists_point hlt
    obtain ⟨x, y, hx, hy, hvertex⟩ := h.vertex i (Nat.le_of_lt_succ hi) j (Nat.le_of_lt_succ hj)
    cases hvertex.symm.trans hn
    refine ⟨hxs x (Array.mem_of_getElem? hx), hys y (Array.mem_of_getElem? hy), ?_⟩
    cases hz : (value i j).filter Float.isFinite with
    | none =>
      change (Float.ofNat 0).isFinite = true
      decide
    | some z => exact (Option.filter_eq_some_iff.1 hz).2

/-- The surface of a formula, of a function, or of what calls of one came to. -/
def SampledOver (d : Domain Float) (m : Mesh Float) : Prop :=
  (∃ f, ofEvaluator f d = .ok m) ∨ (∃ g, ofFunction g d = .ok m) ∨
    ∃ outcomes, ofOutcomes outcomes d = .ok m

theorem SampledOver.exists_samples (h : SampledOver d m) : ∃ value, Samples m d value := by
  obtain ⟨f, h⟩ | ⟨g, h⟩ | ⟨outcomes, h⟩ := h
  · exact exists_samples_ofEvaluator h
  · exact exists_samples_ofOutcomes h
  · exact exists_samples_ofOutcomes h

/-- The coordinates of a grid and the vertices of a surface over it are finite exactly if the numbers from which
they are computed are in the range of doubles. That bounds are finite and in order does not ensure it. -/
theorem coordinates_finite (d : Domain Float) :
    d.xSide.Finiteness d.xSpan d.xs ∧ d.ySide.Finiteness d.ySpan d.ys ∧
    ∀ m, SampledOver d m →
      ((∀ p ∈ m.vertices, p.x.isFinite = true ∧ p.y.isFinite = true ∧ p.z.isFinite = true) ↔
        d.xSide.Fits ∧ d.ySide.Fits) := by
  have hx : d.xSide.Finiteness d.xSpan d.xs := d.xSide.finiteness
  have hy : d.ySide.Finiteness d.ySpan d.ys := d.ySide.finiteness
  refine ⟨hx, hy, fun m hm => ?_⟩
  obtain ⟨value, hs⟩ := hm.exists_samples
  rw [hs.isFinite_vertices_iff, hx.coordinates_iff, hy.coordinates_iff]

/-- The standard domain has finite coordinates, and so have the vertices over it. -/
theorem coordinates_finite_standard :
    (Domain.standard.xSide.Fits ∧ Domain.standard.ySide.Fits) ∧
    ∃ m, ofFunction reciprocal .standard = .ok m ∧
      ∀ p ∈ m.vertices, p.x.isFinite = true ∧ p.y.isFinite = true ∧ p.z.isFinite = true := by
  obtain ⟨hx, hy, hm⟩ := coordinates_finite .standard
  have hlow : exact (-5.0) ≤ 0 := by decide +kernel
  have hxs := hx.coordinates_iff.1 ((hx.coordinates_iff_steps (.inl hlow)).2 (by decide +kernel))
  have hys := hy.coordinates_iff.1 ((hy.coordinates_iff_steps (.inl hlow)).2 (by decide +kernel))
  obtain ⟨m, hf, -⟩ := samples_ofFunction (d := .standard) (g := reciprocal) fun i _ j _ kind h => by
    rw [reciprocal] at h
    split at h <;> cases h
  exact ⟨⟨hxs, hys⟩, m, hf, (hm m (.inr (.inl ⟨reciprocal, hf⟩))).2 ⟨hxs, hys⟩⟩

/-- Accepted bounds whose difference is too large, bounds with a step that is too large, and bounds with a line
that is too large though its steps are not. -/
theorem coordinates_not_finite :
    (∃ d m, Domain.ofBounds (-1e308) 1e308 0 1 1 Nat.one_pos = .ok d ∧
      overflowBound ≤ exact d.xmax - exact d.xmin ∧
      d.xSpan.isFinite = false ∧ (d.xAt 0).isNaN = true ∧ (d.xAt 1).isInf = true ∧
      ofOutcomes [.ok (.float 0), .ok (.float 0), .ok (.float 0), .ok (.float 0)] d = .ok m ∧
      ∀ k < 4, (m.vertex k).x.isFinite = false) ∧
    (∃ d, Domain.ofBounds 0 1e308 0 1 2 Nat.two_pos = .ok d ∧
      exact d.xmax - exact d.xmin < overflowBound ∧
      overflowBound ≤ exact d.xSpan * 2 ∧ (d.xSpan * Float.ofNat 2).isFinite = false ∧
      (d.xAt 2).isInf = true) ∧
    ∃ d, Domain.ofBounds (.ofBits 0x7CA8000000000000) (.ofBits 0x7FEFFFFFFFFFFFFF) 0 1 1 Nat.one_pos = .ok d ∧
      exact d.xmax - exact d.xmin < overflowBound ∧ exact d.xSpan * 1 < overflowBound ∧
      (d.xAt 1).isInf = true := by
  let wide : Domain Float := ⟨-1e308, 1e308, 0, 1, 1, by decide +kernel, by decide +kernel,
    by decide +kernel, by decide +kernel, Nat.one_pos⟩
  let long : Domain Float := ⟨0, 1e308, 0, 1, 2, by decide +kernel, by decide +kernel,
    by decide +kernel, by decide +kernel, Nat.two_pos⟩
  let far : Domain Float := ⟨.ofBits 0x7CA8000000000000, .ofBits 0x7FEFFFFFFFFFFFFF, 0, 1, 1,
    by decide +kernel, by decide +kernel, by decide +kernel, by decide +kernel, Nat.one_pos⟩
  let flat : Mesh Float := ofHeights wide #[some 0, some 0, some 0, some 0]
  refine ⟨⟨wide, flat, wide.ofBounds_self, ?_, ?_, ?_, ?_, rfl, ?_⟩,
    ⟨long, long.ofBounds_self, ?_, ?_, ?_, ?_⟩, far, far.ofBounds_self, ?_, ?_, ?_⟩ <;> decide +kernel

end Mesh

end Relief
