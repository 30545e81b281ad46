import Mathlib
import Relief.Format.Glb

/-!
Pieces one after the other in a list: each is found again at the sum of the sizes of those before it, and
the pieces leave no gaps.
-/
namespace Relief.Format.Glb

variable {α β : Type} {size : α → Nat} {f : α → List β} {l : List α} {a : α} {k : Nat}

theorem length_flatMap_eq (hf : ∀ a, (f a).length = size a) (l : List α) :
    (l.flatMap f).length = (l.map size).sum := by
  rw [List.length_flatMap]
  exact congrArg List.sum (List.map_congr_left fun a _ => hf a)

/-! ### No gaps -/

/-- Words of four bytes, the least first. -/
def words? : List UInt8 → Option (List UInt32)
  | [] => some []
  | a :: b :: c :: d :: bytes =>
    (words? bytes).map (UInt32.ofNat
      (a.toNat + 256 * b.toNat + 65536 * c.toNat + 16777216 * d.toNat) :: ·)
  | _ => none

theorem ofNat_wordBytes (w : UInt32) : UInt32.ofNat (w.toUInt8.toNat +
    256 * (w >>> 8).toUInt8.toNat + 65536 * (w >>> 16).toUInt8.toNat +
    16777216 * (w >>> 24).toUInt8.toNat) = w := by
  have hlt : w.toNat < 2 ^ 32 := w.toNat_lt
  apply UInt32.toNat_inj.1
  simp only [UInt32.toNat_ofNat', UInt32.toNat_toUInt8, UInt32.toNat_shiftRight,
    Nat.shiftRight_eq_div_pow]
  change (_ % 2 ^ 8 + 256 * (w.toNat / 2 ^ 8 % 2 ^ 8) + 65536 * (w.toNat / 2 ^ 16 % 2 ^ 8) +
    16777216 * (w.toNat / 2 ^ 24 % 2 ^ 8)) % 2 ^ 32 = _
  omega

theorem length_blockBytes (b : Block) : (blockBytes b).length = b.byteLength := by
  have hw : ∀ w, (wordBytes w).length = 4 := fun _ => rfl
  rw [blockBytes, length_flatMap_eq hw, Block.byteLength, List.map_const', List.sum_replicate,
    smul_eq_mul, Nat.mul_comm]

/-! ### Elements -/

/-- Rows of `n`. -/
def rows (n : Nat) : (count : Nat) → List β → List (List β)
  | 0, _ => []
  | count + 1, ws => ws.take n :: rows n count (ws.drop n)

theorem length_flatten_eq {n : Nat} {rs : List (List β)} (h : ∀ r ∈ rs, r.length = n) :
    rs.flatten.length = n * rs.length := by
  induction rs with
  | nil => rfl
  | cons r rs ih =>
    obtain ⟨hr, hrs⟩ := List.forall_mem_cons.1 h
    rw [List.flatten_cons, List.length_append, ih hrs, hr, List.length_cons, Nat.mul_succ,
      Nat.add_comm]

end Relief.Format.Glb
