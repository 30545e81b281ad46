import Mathlib
import Relief.Proofs.Number.Sign

/-!
The order of finite doubles is linear, except that there are two zeros. So some numbers have a least and a
greatest one among them, and these are the ones found by going through them once.
-/
namespace Relief

namespace Number

open Float.Model Float.Model.UnpackedFloat

/-- The place in the order: sign and kind first, then the exponent, then the mantissa. -/
def rank : UnpackedFloat → ℤ ×ₗ ℤ ×ₗ ℤ
  | .infinity .negative => toLex (-2, toLex (0, 0))
  | .finite .negative m e _ => toLex (-1, toLex (-e, -(m : ℤ)))
  | .zero _ | .notANumber => toLex (0, toLex (0, 0))
  | .finite .positive m e _ => toLex (1, toLex (e, (m : ℤ)))
  | .infinity .positive => toLex (2, toLex (0, 0))

section Compare

variable {u u' : UnpackedFloat}

theorem compare_eq_lt_iff (h : u ≠ .notANumber) (h' : u' ≠ .notANumber) :
    UnpackedFloat.compare u u' = some .lt ↔ rank u < rank u' := by
  rcases u with (_ | _) | _ | _ | ⟨_ | _, m, e, hm⟩ <;>
    rcases u' with (_ | _) | _ | _ | ⟨_ | _, m', e', hm'⟩ <;>
    simp [UnpackedFloat.compare, rank, Prod.Lex.toLex_lt_toLex, Ordering.then_eq_lt,
      Ordering.then_eq_gt, compare_lt_iff_lt, compare_gt_iff_gt] at h h' ⊢
  decide

theorem compare_eq_eq_iff (h : u ≠ .notANumber) (h' : u' ≠ .notANumber) :
    UnpackedFloat.compare u u' = some .eq ↔ rank u = rank u' := by
  rcases u with (_ | _) | _ | _ | ⟨_ | _, m, e, hm⟩ <;>
    rcases u' with (_ | _) | _ | _ | ⟨_ | _, m', e', hm'⟩ <;>
    simp [UnpackedFloat.compare, rank, Ordering.then_eq_eq] at h h' ⊢
  all_goals decide

theorem compare_isLE_iff (h : u ≠ .notANumber) (h' : u' ≠ .notANumber) :
    (UnpackedFloat.compare u u').any (·.isLE) = true ↔ rank u ≤ rank u' := by
  rw [le_iff_lt_or_eq, ← compare_eq_lt_iff h h', ← compare_eq_eq_iff h h']
  cases UnpackedFloat.compare u u' with
  | none => simp
  | some o => cases o <;> simp

end Compare

theorem fields_ne_notANumber {v : Float} (h : v.isFinite = true) : fields v ≠ .notANumber := by
  intro hv
  change (fields v).isFinite = true at h
  rw [hv] at h
  cases h

end Number

/-! ### Least and greatest -/

namespace Scalar

open Number

/-- Numbers that are compared by their places in a linear order. -/
structure Ranked {α β : Type} [Scalar α] [LinearOrder β] (p : α → Prop) (rank : α → β) : Prop where
  lt_iff : ∀ {v w : α}, p v → p w → (v < w ↔ rank v < rank w)
  le_iff : ∀ {v w : α}, p v → p w → (v ≤ w ↔ rank v ≤ rank w)
  same_self : ∀ {v : α}, p v → same v v = true

theorem ranked_isFinite : Ranked (fun v : Float => v.isFinite = true) (fun v => rank (fields v)) where
  lt_iff hv hw := lt_iff_compare.trans
    (compare_eq_lt_iff (fields_ne_notANumber hv) (fields_ne_notANumber hw))
  le_iff hv hw := le_iff_compare.trans
    (compare_isLE_iff (fields_ne_notANumber hv) (fields_ne_notANumber hw))
  same_self hv := beq_self hv

section Pick

variable {α : Type} {p : α → Prop} {r : α → α → Prop}

/-- Of some numbers, the one that is picked over all others is at least as good as each. -/
theorem foldl_pick (pick : α → α → α) (hr : ∀ v, r v v) (ht : ∀ u v w, r u v → r v w → r u w)
    (hp : ∀ v w, p v → p w → (pick v w = v ∨ pick v w = w) ∧ r (pick v w) v ∧ r (pick v w) w)
    (v : α) (vs : List α) (h : ∀ w ∈ v :: vs, p w) :
    vs.foldl pick v ∈ v :: vs ∧ ∀ w ∈ v :: vs, r (vs.foldl pick v) w := by
  induction vs generalizing v with
  | nil =>
    refine ⟨List.mem_singleton_self v, fun w hw => ?_⟩
    rw [List.mem_singleton.1 hw]
    exact hr v
  | cons w vs ih =>
    obtain ⟨hv, hw, hvs⟩ : p v ∧ p w ∧ ∀ x ∈ vs, p x := by simpa using h
    obtain ⟨hpick, hleft, hright⟩ := hp v w hv hw
    have hpicked : p (pick v w) := by
      obtain he | he := hpick <;> rw [he] <;> assumption
    obtain ⟨hmem, hbest⟩ := ih (pick v w) (List.forall_mem_cons.2 ⟨hpicked, hvs⟩)
    have hfirst := hbest (pick v w) List.mem_cons_self
    rw [List.foldl_cons]
    refine ⟨?_, fun x hx => ?_⟩
    · obtain he | he := List.mem_cons.1 hmem
      · rw [he]
        obtain he | he := hpick <;> simp [he]
      · exact List.mem_cons_of_mem v (List.mem_cons_of_mem w he)
    · obtain rfl | rfl | hx : x = v ∨ x = w ∨ x ∈ vs := by simpa using hx
      · exact ht _ _ _ hfirst hleft
      · exact ht _ _ _ hfirst hright
      · exact hbest x (List.mem_cons_of_mem _ hx)

end Pick

section Extremes

variable {α β : Type} [Scalar α] [LinearOrder β] {p : α → Prop} {rank : α → β} {vs : List α}

theorem Ranked.least? (h : Ranked p rank) (hvs : ∀ v ∈ vs, p v) (hne : vs ≠ []) :
    ∃ m ∈ vs, Scalar.least? vs = some m ∧ ∀ v ∈ vs, m ≤ v := by
  obtain ⟨v, vs, rfl⟩ := List.exists_cons_of_ne_nil hne
  obtain ⟨hmem, hbest⟩ := foldl_pick (p := p) (r := fun v w => rank v ≤ rank w)
    (fun m v => if v < m then v else m) (fun _ => le_rfl) (fun _ _ _ => le_trans)
    (fun m w hm hw => by
      split
      · next hlt => exact ⟨.inr rfl, ((h.lt_iff hw hm).1 hlt).le, le_rfl⟩
      · next hlt => exact ⟨.inl rfl, le_rfl, not_lt.1 (hlt ∘ (h.lt_iff hw hm).2)⟩) v vs hvs
  exact ⟨_, hmem, rfl, fun w hw => (h.le_iff (hvs _ hmem) (hvs w hw)).2 (hbest w hw)⟩

theorem Ranked.greatest? (h : Ranked p rank) (hvs : ∀ v ∈ vs, p v) (hne : vs ≠ []) :
    ∃ m ∈ vs, Scalar.greatest? vs = some m ∧ ∀ v ∈ vs, v ≤ m := by
  obtain ⟨v, vs, rfl⟩ := List.exists_cons_of_ne_nil hne
  obtain ⟨hmem, hbest⟩ := foldl_pick (p := p) (r := fun v w => rank w ≤ rank v)
    greater (fun _ => le_rfl) (fun _ _ _ hvw huv => le_trans huv hvw)
    (fun m w hm hw => by
      rw [greater]
      split
      · next hlt => exact ⟨.inr rfl, ((h.lt_iff hm hw).1 hlt).le, le_rfl⟩
      · next hlt =>
        rw [if_pos (h.same_self hw)]
        exact ⟨.inl rfl, le_rfl, not_lt.1 (hlt ∘ (h.lt_iff hm hw).2)⟩) v vs hvs
  exact ⟨_, hmem, rfl, fun w hw => (h.le_iff (hvs w hw) (hvs _ hmem)).2 (hbest w hw)⟩

end Extremes

end Scalar

end Relief
