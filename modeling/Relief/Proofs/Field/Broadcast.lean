import Mathlib
import Relief.Field

/-!
Arrays that are read as if they had the sizes of a larger one. Reading through a size in between makes
no difference, so what an operation on two arrays holds at a place is the operation on what the two
arrays hold there.
-/
namespace Relief.Field

/-- Sizes of an array that can be repeated to fill another: each is that of the other array or one,
and outer dimensions may be missing. -/
inductive Fits : (part whole : List Nat) → Prop where
  | nil {whole : List Nat} : Fits [] whole
  | cons {p w : Nat} {part whole : List Nat} : p = w ∨ p = 1 → Fits part whole →
    Fits (p :: part) (w :: whole)

/-- As many numbers as the sizes ask for. -/
def Full (f : Field) : Prop := f.values.size = count f.sizes

variable {part mid whole as bs : List Nat} {k : Nat}

@[simp] theorem count_nil : count [] = 1 := rfl

@[simp] theorem count_cons (size : Nat) (sizes : List Nat) :
    count (size :: sizes) = size * count sizes := rfl

@[simp] theorem place_nil (whole : List Nat) (k : Nat) : place whole [] k = 0 := by
  cases whole <;> rfl

theorem place_cons (w p : Nat) (whole part : List Nat) (k : Nat) :
    place (w :: whole) (p :: part) k =
      (if p = 1 then 0 else k % w) + p * place whole part (k / w) := rfl

theorem Fits.refl (sizes : List Nat) : Fits sizes sizes := by
  induction sizes with
  | nil => exact .nil
  | cons size sizes ih => exact .cons (.inl rfl) ih

theorem div_lt_of_lt_count {w : Nat} (hk : k < count (w :: whole)) : 0 < w ∧ k / w < count whole := by
  rw [count_cons] at hk
  have hw : 0 < w := Nat.pos_of_mul_pos_right (Nat.zero_lt_of_lt hk)
  exact ⟨hw, (Nat.div_lt_iff_lt_mul hw).2 (Nat.mul_comm w _ ▸ hk)⟩

/-! ### Places -/

theorem place_lt (h : Fits part whole) (hk : k < count whole) : place whole part k < count part := by
  induction h generalizing k with
  | nil => rw [place_nil, count_nil]; exact Nat.zero_lt_one
  | @cons p w part whole hp _ ih =>
    obtain ⟨hw, hk⟩ := div_lt_of_lt_count hk
    have hi := ih hk
    rw [place_cons, count_cons]
    by_cases h1 : p = 1
    · rw [if_pos h1, h1]
      omega
    · obtain rfl := hp.resolve_right h1
      rw [if_neg h1]
      calc k % p + p * place whole part (k / p)
          < p + p * place whole part (k / p) := Nat.add_lt_add_right (Nat.mod_lt k hw) _
        _ = p * (place whole part (k / p) + 1) := by rw [Nat.mul_succ, Nat.add_comm]
        _ ≤ p * count part := Nat.mul_le_mul_left p hi

theorem place_self (hk : k < count whole) : place whole whole k = k := by
  induction whole generalizing k with
  | nil => rw [place_nil]; exact (Nat.lt_one_iff.1 hk).symm
  | cons w whole ih =>
    rw [place_cons, ih (div_lt_of_lt_count hk).2]
    by_cases h1 : w = 1
    · rw [if_pos h1, h1]
      omega
    · rw [if_neg h1]
      exact Nat.mod_add_div k w

theorem place_place (h : Fits part mid) (h' : Fits mid whole) (hk : k < count whole) :
    place mid part (place whole mid k) = place whole part k := by
  induction h generalizing whole k with
  | nil => rw [place_nil, place_nil]
  | @cons p m part mid hp _ ih =>
    cases h' with
    | @cons _ w _ whole hm h' =>
      obtain ⟨hw, hk⟩ := div_lt_of_lt_count hk
      rw [place_cons, place_cons w p, place_cons, ← ih h' hk]
      by_cases h1 : m = 1
      · have hp1 : p = 1 := hp.elim (·.trans h1) id
        rw [if_pos h1, h1, hp1]
        simp only [if_true, Nat.zero_add, Nat.one_mul, Nat.div_one]
      · obtain rfl := hm.resolve_right h1
        rw [if_neg h1, Nat.add_mul_div_left _ _ hw, Nat.div_eq_of_lt (Nat.mod_lt k hw),
          Nat.zero_add, Nat.add_mul_mod_self_left, Nat.mod_mod]

/-! ### Sizes that two arrays have together -/

theorem joinSize_eq_some {a b size : Nat} (h : joinSize a b = some size) :
    (a = size ∨ a = 1) ∧ (b = size ∨ b = 1) := by
  unfold joinSize at h
  split at h
  · next hb =>
    cases h
    exact ⟨.inl rfl, hb.imp_left Eq.symm⟩
  · split at h
    · next ha =>
      cases h
      exact ⟨.inr ha, .inl rfl⟩
    · cases h

theorem joinSize_of_fits {a b size : Nat} (ha : a = size ∨ a = 1) (hb : b = size ∨ b = 1) :
    ∃ m, joinSize a b = some m ∧ (m = size ∨ m = 1) := by
  unfold joinSize
  split
  · exact ⟨a, rfl, ha⟩
  · next h =>
    have ha1 : a = 1 := by omega
    exact ⟨b, if_pos ha1, hb⟩

theorem fits_of_joinSizes (h : joinSizes as bs = some whole) : Fits as whole ∧ Fits bs whole := by
  induction as, bs using joinSizes.induct generalizing whole with
  | case1 bs =>
    cases h
    exact ⟨.nil, .refl _⟩
  | case2 as =>
    have h : some as = some whole := by simpa only [joinSizes] using h
    cases h
    exact ⟨.refl _, .nil⟩
  | case3 a as b bs ih =>
    obtain ⟨size, hs, h⟩ := Option.bind_eq_some_iff.1 h
    obtain ⟨sizes, hss, h⟩ := Option.bind_eq_some_iff.1 h
    cases h
    obtain ⟨ha, hb⟩ := joinSize_eq_some hs
    exact ⟨.cons ha (ih hss).1, .cons hb (ih hss).2⟩

theorem joinSizes_of_fits (ha : Fits as whole) (hb : Fits bs whole) :
    ∃ mid, joinSizes as bs = some mid ∧ Fits mid whole := by
  induction ha generalizing bs with
  | nil => exact ⟨bs, rfl, hb⟩
  | @cons a w as whole h ha ih =>
    cases hb with
    | nil => exact ⟨a :: as, rfl, .cons h ha⟩
    | @cons b _ bs _ h' hb =>
      obtain ⟨size, hs, hsize⟩ := joinSize_of_fits h h'
      obtain ⟨mid, hm, hfits⟩ := ih hb
      exact ⟨size :: mid, by rw [joinSizes, hs, hm]; rfl, .cons hsize hfits⟩

/-! ### What is read -/

/-- An array that fills the given sizes with the numbers `v`. -/
structure Shows (f : Field) (whole : List Nat) (v : Nat → Float) : Prop where
  fits : Fits f.sizes whole
  full : f.Full
  read : ∀ k < count whole, f.read whole k = v k

section Shows

variable {f g : Field} {u v : Nat → Float}

theorem Full.read (hf : f.Full) (h : Fits f.sizes whole) (hk : k < count whole) :
    f.values[place whole f.sizes k]? = some (f.read whole k) := by
  have hlt : place whole f.sizes k < f.values.size := Nat.lt_of_lt_of_eq (place_lt h hk) hf.symm
  rw [Field.read, Array.getElem?_eq_getElem hlt, Option.getD_some]

/-- Numbers in a row fill the sizes of the array, and through them any others. -/
theorem read_ofFn (v : Nat → Float) (h : Fits mid whole) (hk : k < count whole) :
    Field.read ⟨mid, Array.ofFn fun k : Fin (count mid) => v k⟩ whole k = v (place whole mid k) := by
  rw [Field.read, Array.getElem?_ofFn, dif_pos (place_lt h hk), Option.getD_some]

theorem Full.shows (hf : f.Full) (h : Fits f.sizes whole) : f.Shows whole (f.read whole) :=
  ⟨h, hf, fun _ _ => rfl⟩

theorem Shows.congr (hf : f.Shows whole u) (h : ∀ k < count whole, u k = v k) : f.Shows whole v :=
  ⟨hf.fits, hf.full, fun k hk => (hf.read k hk).trans (h k hk)⟩

theorem shows_scalar (whole : List Nat) (v : Float) : (scalar v).Shows whole fun _ => v where
  fits := .nil
  full := rfl
  read k _ := by rw [Field.read, scalar, place_nil]; rfl

theorem Shows.map (op : Float → Float) (hf : f.Shows whole v) :
    (f.map op).Shows whole fun k => op (v k) where
  fits := hf.fits
  full := by rw [Full, Field.map, Array.size_map]; exact hf.full
  read k hk := by
    rw [Field.read, Field.map, Array.getElem?_map, hf.full.read hf.fits hk, Option.map_some,
      Option.getD_some, hf.read k hk]

theorem Shows.zipWith (op : Float → Float → Float) (hf : f.Shows whole u) (hg : g.Shows whole v) :
    ∃ h, f.zipWith op g = some h ∧ h.Shows whole fun k => op (u k) (v k) := by
  obtain ⟨mid, hm, hmid⟩ := joinSizes_of_fits hf.fits hg.fits
  obtain ⟨hfm, hgm⟩ := fits_of_joinSizes hm
  refine ⟨_, by rw [Field.zipWith, hm, Option.map_some], hmid, ?_, fun k hk => ?_⟩
  · exact Array.size_ofFn
  · rw [read_ofFn (fun k => op (f.read mid k) (g.read mid k)) hmid hk, ← hf.read k hk, ← hg.read k hk]
    simp only [Field.read, place_place hfm hmid hk, place_place hgm hmid hk]

theorem Shows.values_spread (hf : f.Shows whole v) :
    (f.spread whole).values = Array.ofFn fun k : Fin (count whole) => v k :=
  congrArg Array.ofFn (funext fun k => hf.read k k.isLt)

end Shows

end Relief.Field
