import Mathlib
import Relief.Proofs.Juxtaposition.Product
import Relief.Proofs.Shorthand.Silence

/-!
Superscripts after a factor. Each of them is spelled out by itself, as a caret and its digit, and powers
are grouped to the right: a row of superscripts is a tower of powers, not the number that it shows.
-/
namespace Relief.Juxtaposition

open Relief.Token Relief.Text Relief.Scan Relief.Grammar Relief.Shorthand Relief.Number

variable {limit : Nat} {t : Expr} {u u' n n' m m' q q' w before before' : List Char}
  {ks ks' : List Kind}

/-- The superscripts of the ten digits. -/
def superscripts : Vector Char 10 := #v['⁰', '¹', '²', '³', '⁴', '⁵', '⁶', '⁷', '⁸', '⁹']

/-- The number that some digits show. -/
def shown (ds : List (Fin 10)) : Expr :=
  .num ((⟨digitsValue (ds.map (·.val)), 0⟩ : Decimal).toFloat false)

/-- A power for each digit, grouped to the right. -/
def tower : Expr → List (Fin 10) → Expr
  | base, [] => base
  | base, d :: ds => .binary "^" base (tower (shown [d]) ds)

/-! ### Powers of factors -/

theorem EndsFactor.sameEnd (h : EndsFactor before) (he : SameEnd before before') :
    EndsFactor before' := by
  obtain h | h | h := h
  · exact .inl (he.digit ▸ h)
  · have hp := he.paren
    rw [h, beq_self_eq_true] at hp
    exact .inr (.inl (beq_iff_eq.1 hp.symm))
  · exact .inr (.inr (he.factor ▸ h))

theorem sameEnd_caret (before : List Char) : SameEnd [] ('^' :: before) := ⟨rfl, rfl, rfl, rfl, rfl⟩

theorem Stands.pow (h : Stands u n m q ks) (h' : Stands u' n' m' q' ks') :
    Stands (u ++ '^' :: u') (n ++ '^' :: n') (m ++ '^' :: m') (q ++ '^' :: q')
      (ks ++ .caret :: ks') := by
  have hcaret : isBlank '^' = false := by decide
  have hq : q ≠ [] := by
    rintro rfl
    cases h.first
  have hq' : q' ≠ [] := by
    rintro rfl
    cases h'.first
  -- what stands after the caret stands as if nothing were before it
  have hright : ∀ b rest, insertAt productGap ('^' :: b) (n' ++ rest) =
      m' ++ insertAt productGap (n'.reverse ++ '^' :: b) rest := by
    intro b rest
    have hm := h'.multiplied [] rest (.inl rfl)
    rw [productGap_of_quiet (quiet_of_not_endsFactor rfl _), if_neg Bool.false_ne_true,
      List.nil_append] at hm
    rw [← (sameEnd_caret b).insertAt_eq, hm, ((sameEnd_caret b).append n'.reverse).insertAt_eq]
  exact
    { normal := fun rest => by
        simp only [List.append_assoc, List.cons_append]
        rw [h.normal, collapse_cons_of_not_blank hcaret, h'.normal]
      gap := fun before rest hb hp => by
        rw [List.head?_append_of_ne_nil _ h.ne_nil] at hp
        rw [List.append_assoc]
        exact h.gap before _ hb hp
      multiplied := fun before rest hb => by
        rw [List.append_assoc, h.multiplied before _ hb, List.cons_append,
          insertAt_productGap_of_quiet (quiet_mark rfl (by decide) (by decide) (by decide) _ _),
          hright]
        simp only [List.append_assoc, List.cons_append, List.reverse_append, List.reverse_cons,
          List.nil_append]
      ends := fun before hb => by
        have he := h'.ends [] (.inl rfl)
        simp only [List.reverse_append, List.reverse_cons, List.append_assoc, List.singleton_append]
        exact he.sameEnd ((sameEnd_caret _).append n'.reverse)
      qualified := qualifyNames_wall (by decide) h.qualified h'.qualified
      lexed := h.lexed.append_mark (by simp [symbols]) (by decide) (fun _ _ => .inr (by decide))
        (fun _ _ => .inr (by decide)) h'.lexed
      ink := by
        rw [List.head?_append_of_ne_nil _ h.ne_nil]
        exact h.ink
      first := by
        rw [List.head?_append_of_ne_nil _ hq]
        exact h.first
      last := by
        rw [List.getLast?_append_of_ne_nil _ (List.cons_ne_nil _ _), List.getLast?_cons_of_ne_nil hq']
        exact h'.last }

/-! ### Rows of superscripts -/

theorem spellOut_superscript (d : Fin 10) :
    spellOut superscripts[d] = ['^', Nat.digitChar d] := by
  revert d
  decide

theorem stands_digit (d : Fin 10) : Stands [Nat.digitChar d] [Nat.digitChar d] [Nat.digitChar d]
    [Nat.digitChar d] [.number ((⟨digitsValue [d.val], 0⟩ : Decimal).toFloat false)] := by
  have hd : ∀ d : Fin 10, isDigit (Nat.digitChar d) = true ∧ (Nat.digitChar d).toNat < 128 ∧
      worth [Nat.digitChar d] = digitsValue [d.val] := by
    decide
  obtain ⟨hdigit, hascii, hworth⟩ := hd d
  have hn : NumberText [Nat.digitChar d] ⟨digitsValue [d.val], 0⟩ := by
    rw [← hworth]
    exact .intro (.whole (List.cons_ne_nil _ _) (List.forall_mem_singleton.2 hdigit)) .none
  exact stands_number hn (List.forall_mem_singleton.2 hascii) hdigit hdigit

/-- How a factor stands with a row of superscripts after it. -/
theorem Stands.raised {a : Derivation .atom} (h : Stands u n m q a.yield) (ha : a.Allowed)
    (ds : List (Fin 10)) : ∃ n' m' q', ∃ p : Derivation .power,
      Stands (u ++ (ds.map fun d => superscripts[d]).flatMap spellOut) n' m' q' p.yield ∧
        p.Allowed ∧ p.tree = tower a.tree ds ∧
          p.levels ≤ max a.levels (2 * ds.length + 1) + 1 := by
  induction ds generalizing u n m q a with
  | nil =>
    refine ⟨n, m, q, .plain a, ?_, ha, rfl, ?_⟩
    · rwa [List.map_nil, List.flatMap_nil, List.append_nil]
    · simp only [Derivation.levels]
      omega
  | cons d ds ih =>
    let e : Derivation .atom := .number ((⟨digitsValue [d.val], 0⟩ : Decimal).toFloat false)
    obtain ⟨n', m', q', p, hs, hp, ht, hl⟩ := @ih _ _ _ _ e (stands_digit d) trivial
    refine ⟨n ++ '^' :: n', m ++ '^' :: m', q ++ '^' :: q', .raised a (.unsigned p), ?_, ⟨ha, hp⟩,
      ?_, ?_⟩
    · rw [List.map_cons, List.flatMap_cons, spellOut_superscript]
      exact h.pow hs
    · exact congrArg (Expr.binary "^" a.tree) ht
    · have he : e.levels = 1 := rfl
      simp only [Derivation.levels, List.length_cons]
      omega

end Relief.Juxtaposition
