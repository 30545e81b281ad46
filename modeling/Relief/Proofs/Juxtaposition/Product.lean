import Mathlib
import Relief.Proofs.Juxtaposition.Factor
import Relief.Proofs.Print.RoundTrip

/-!
Factors with nothing between them are a product: a `*` is put into each of the gaps between them and
into no other.
-/
namespace Relief.Juxtaposition

open Relief.Token Relief.Text Relief.Scan Relief.Grammar Relief.Parser Relief.Shorthand

variable {limit : Nat} {u u' n n' m m' q q' before : List Char} {ks ks' : List Kind}
  {f g : List Char × Expr} {fs : List (List Char × Expr)}

/-- What may stand side by side: a number comes after a parenthesis only. -/
def Beside (f g : List Char × Expr) : Prop :=
  g.1.head?.any isDigit = true → f.1.getLast? = some ')'

instance : DecidableRel Beside := fun f g =>
  inferInstanceAs (Decidable (g.1.head?.any isDigit = true → f.1.getLast? = some ')'))

/-- The text of some factors, with nothing between them. -/
def joined (fs : List (List Char × Expr)) : List Char := fs.flatMap (·.1)

/-- A tree times the trees of some factors, grouped to the left. -/
def timesAll (left : Expr) (fs : List (List Char × Expr)) : Expr :=
  fs.foldl (fun left g => .binary "*" left g.2) left

/-! ### Two texts side by side -/

theorem Stands.ne_nil (h : Stands u n m q ks) : n ≠ [] := by
  rintro rfl
  cases h.ink

theorem ne_star_of_any {o : Option Char} {c : Char} (h : o.any (· != '*') = true) (hc : c ∈ o) :
    c ≠ '*' := by
  rw [Option.mem_def.1 hc] at h
  simpa using h

theorem Stands.mul (h : Stands u n m q ks) (h' : Stands u' n' m' q' ks')
    (hd : n'.head?.any isDigit = true → n.getLast? = some ')') :
    Stands (u ++ u') (n ++ n') (m ++ '*' :: m') (q ++ '*' :: q') (ks ++ .star :: ks') := by
  have hq : q ≠ [] := by
    rintro rfl
    cases h.first
  have hq' : q' ≠ [] := by
    rintro rfl
    cases h'.first
  exact
    { normal := fun rest => by rw [List.append_assoc, h.normal, h'.normal, List.append_assoc]
      gap := fun before rest hb hp => by
        rw [List.head?_append_of_ne_nil _ h.ne_nil] at hp
        rw [List.append_assoc]
        exact h.gap before _ hb hp
      multiplied := fun before rest hb => by
        have hgap : productGap (n.reverse ++ before) (n' ++ rest) = true := by
          refine h'.gap _ rest (h.ends before hb) fun hp => ?_
          rw [List.head?_append, List.head?_reverse, hd hp]
          rfl
        rw [List.append_assoc, h.multiplied before _ hb,
          h'.multiplied _ rest (.inr (h.ends before hb)), if_pos hgap]
        simp only [List.append_assoc, List.cons_append, List.nil_append, List.reverse_append]
      ends := fun before hb => by
        rw [List.reverse_append, List.append_assoc]
        exact h'.ends _ (.inr (h.ends before hb))
      qualified := qualifyNames_wall (by decide) h.qualified h'.qualified
      lexed := h.lexed.append_mark (by simp [symbols]) (by decide)
        (fun a ha => .inl (ne_star_of_any h.last ha)) (fun b hb => .inl (ne_star_of_any h'.first hb))
        h'.lexed
      ink := by
        rw [List.head?_append_of_ne_nil _ h.ne_nil]
        exact h.ink
      first := by
        rw [List.head?_append_of_ne_nil _ hq]
        exact h.first
      last := by
        rw [List.getLast?_append_of_ne_nil _ (List.cons_ne_nil _ _), List.getLast?_cons_of_ne_nil hq']
        exact h'.last }

/-! ### A row of factors -/

/-- How a row of factors stands in a text, with the derivation of the product. -/
structure Row (limit : Nat) (f : List Char × Expr) (fs : List (List Char × Expr))
    (n m q : List Char) (a : Derivation .atom) (ds : Derivation .factors) : Prop where
  stands : Stands ((joined (f :: fs)).flatMap spellOut) n m q (a.yield ++ ds.yield)
  allowed : a.Allowed ∧ ds.Allowed
  tree : a.tree = f.2 ∧ ∀ left, ds.tree left = timesAll left fs
  levels : max (a.levels + 2) ds.levels ≤ max limit 5 + 4
  digit : n.head?.any isDigit = true → f.1.head?.any isDigit = true

theorem exists_row (h : ∀ g ∈ f :: fs, Factor limit g.1 g.2) (hc : (f :: fs).IsChain Beside) :
    ∃ n m q a ds, Row limit f fs n m q a ds := by
  induction fs generalizing f with
  | nil =>
    obtain ⟨n, m, q, a, hw⟩ := (h f List.mem_cons_self).written
    refine ⟨n, m, q, a, .endFactors,
      ⟨?_, ⟨hw.allowed, trivial⟩, ⟨hw.tree, fun _ => rfl⟩, ?_, hw.digit⟩⟩
    · simpa [joined, Derivation.yield] using hw.stands
    · have := hw.levels
      simp only [Derivation.levels]
      omega
  | cons g fs ih =>
    obtain ⟨n, m, q, a, hw⟩ := (h f List.mem_cons_self).written
    obtain ⟨hb, hc⟩ := List.isChain_cons_cons.1 hc
    obtain ⟨n', m', q', a', ds, hr⟩ := ih (fun k hk => h k (List.mem_cons_of_mem f hk)) hc
    refine ⟨n ++ n', m ++ '*' :: m', q ++ '*' :: q', a,
      .factor .star "*" rfl (.unsigned (.plain a')) ds, ⟨?_, ?_, ?_, ?_, ?_⟩⟩
    · have hs := hw.stands.mul hr.stands fun hd => hw.paren (hb (hr.digit hd))
      rwa [← List.flatMap_append] at hs
    · exact ⟨hw.allowed, hr.allowed⟩
    · refine ⟨hw.tree, fun left => ?_⟩
      change ds.tree (.binary "*" left a'.tree) = timesAll (.binary "*" left g.2) fs
      rw [hr.tree.2, hr.tree.1]
    · have := hw.levels
      have := hr.levels
      simp only [Derivation.levels]
      omega
    · rw [List.head?_append_of_ne_nil _ hw.stands.ne_nil]
      exact hw.digit

/-! ### The whole text -/

theorem not_isBlank_of_endsFactor {c : Char} (h : endsFactor c = true) : isBlank c = false := by
  simp only [endsFactor, isVariable, Bool.or_eq_true, beq_iff_eq] at h
  obtain (h | rfl) | rfl | rfl := h
  · exact not_isBlank_of_inWord (inWord_of_isDigit h)
  all_goals decide

/-- A text of factors begins and ends without a blank. -/
theorem Stands.normalize (h : Stands u n m q ks) : trim (collapse u) = n := by
  have hn := h.normal []
  rw [List.append_nil] at hn
  rw [hn, show collapse [] = [] from rfl, List.append_nil]
  refine trim_eq_self (fun c hc => ?_) fun c hc => ?_
  · have hi := h.ink
    rw [Option.mem_def.1 hc] at hi
    simpa using hi
  · have he := (h.ends [] (.inl rfl)).endsFactor
    rw [List.append_nil, List.head?_reverse, Option.mem_def.1 hc] at he
    exact not_isBlank_of_endsFactor he

theorem Stands.insertProducts (h : Stands u n m q ks) : insertProducts n = m := by
  have hm := h.multiplied [] [] (.inl rfl)
  rw [productGap_of_quiet (quiet_of_not_endsFactor rfl _), if_neg Bool.false_ne_true, List.append_nil,
    List.nil_append] at hm
  rw [insertProducts_eq, hm]
  exact List.append_nil m

/-- A text that stands as a factor is compiled to the tree of its derivation. -/
theorem Stands.compiledAs {d : Derivation .additive} {w : List Char}
    (h : Stands (w.flatMap spellOut) n m q d.yield) (ha : d.Allowed) :
    Expr.CompiledAs (String.ofList w) (String.ofList q) d.levels d.tree := by
  have hq : q ≠ [] := by
    rintro rfl
    cases h.first
  have he : expand (String.ofList w) = .ok (String.ofList q) := by
    rw [expand_ofList, Shorthand.normalize, h.normalize, h.insertProducts, h.qualified]
    rfl
  have hd : Derives (String.ofList q) d := by
    refine derives_iff.2 ⟨?_, ha⟩
    rw [String.toList_ofList]
    exact h.lexed
  refine Expr.compiledAs_of_derives he ?_ hd
  rw [← Bool.not_eq_true, String.isEmpty_iff, ← String.toList_inj, String.toList_ofList]
  exact hq

theorem Row.compiledAs {a : Derivation .atom} {ds : Derivation .factors}
    (h : Row limit f fs n m q a ds) :
    Expr.CompiledAs (String.ofList (joined (f :: fs))) (String.ofList q) (product a ds).levels
      (timesAll f.2 fs) := by
  have ht : (product a ds).tree = timesAll f.2 fs := by
    rw [← h.tree.1]
    exact h.tree.2 _
  have hs := h.stands
  rw [← yield_product] at hs
  exact ht ▸ hs.compiledAs ⟨h.allowed, trivial⟩

theorem compiledAs_joined (h : ∀ g ∈ f :: fs, Factor limit g.1 g.2)
    (hc : (f :: fs).IsChain Beside) :
    ∃ expanded levels, levels ≤ max limit 5 + 6 ∧
      Expr.CompiledAs (String.ofList (joined (f :: fs))) expanded levels (timesAll f.2 fs) := by
  obtain ⟨n, m, q, a, ds, hr⟩ := exists_row h hc
  refine ⟨_, _, ?_, hr.compiledAs⟩
  have := hr.levels
  simp only [product, Derivation.levels]
  omega

/-- What is compiled within the limits is accepted, so that it may stand in a factor again. -/
theorem accepted_of_compiledAs {text expanded : String} {levels : Nat} {t : Expr}
    (h : Expr.CompiledAs text expanded levels t) (hl : levels ≤ limit) (hmax : levels ≤ maxLevels) :
    Accepted limit text t := by
  refine ⟨⟨t, text, expanded⟩, ?_, rfl, ?_⟩
  · rw [h.built, if_pos hmax]
  · rw [h.parsed, if_pos hl]

/-- Factors with nothing between them are compiled to the product of what each is compiled to by itself.
What stands between the parentheses and commas of a factor is any text that is accepted. The product needs
at most six levels more than such a text, or than the constant, which needs five. It is refused only where
these are more than the parser's limit. -/
theorem build_joined (limit : Nat) (f : List Char × Expr) (fs : List (List Char × Expr))
    (h : ∀ g ∈ f :: fs, Factor limit g.1 g.2) (hc : (f :: fs).IsChain Beside) :
    (∀ g ∈ f :: fs, ∃ expanded levels, levels ≤ max limit 5 + 6 ∧
      Expr.CompiledAs (String.ofList g.1) expanded levels g.2) ∧
    ∃ expanded levels, levels ≤ max limit 5 + 6 ∧
      Expr.CompiledAs (String.ofList (joined (f :: fs))) expanded levels (timesAll f.2 fs) := by
  refine ⟨fun g hg => ?_, compiledAs_joined h hc⟩
  have hone := compiledAs_joined (List.forall_mem_singleton.2 (h g hg)) (.singleton g)
  rwa [joined, List.flatMap_singleton] at hone

/-- The product `2(x + y)xMAX(y,x)π`. -/
theorem build_joined_mixed : ∃ f, Evaluator.build "2(x + y)xMAX(y,x)π" = .ok f ∧
    f.tree = .binary "*" (.binary "*" (.binary "*" (.binary "*"
      (.num ((⟨2, 0⟩ : Number.Decimal).toFloat false))
      (.binary "+" (.var "x") (.var "y"))) (.var "x")) (.call "max" [.var "y", .var "x"]))
      (.num (Float.ofBits 0x400921FB54442D18)) := by
  have haccepted : ∀ t : Expr, t.WellFormed Number.IsMagnitude → t.depth ≤ 2 →
      Accepted 20 (String.ofList (Expr.Piece.textOf t.pieces)) t := by
    intro t ht hd
    obtain ⟨expanded, levels, hl, hc⟩ := Expr.compiledAs_pieces ht
    have hmax : maxLevels = 990 := rfl
    exact accepted_of_compiledAs hc (by omega) (by omega)
  have hx : Expr.WellFormed Number.IsMagnitude (.var "x") := .var (by decide)
  have hy : Expr.WellFormed Number.IsMagnitude (.var "y") := .var (by decide)
  have hsum : Accepted 20 "x + y" (.binary "+" (.var "x") (.var "y")) :=
    haccepted (.binary "+" (.var "x") (.var "y")) (.binary (by decide) hx hy) (by decide)
  have hargs : Arguments 20 "y,x".toList [.var "y", .var "x"] :=
    .more (haccepted _ hy (by decide)) (.one (haccepted _ hx (by decide)))
  have hspelling : IsSpelling "MAX".toList ("max", "max") := ⟨by decide, by decide⟩
  have htwo : NumberText ['2'] ⟨2, 0⟩ :=
    .intro (.whole (List.cons_ne_nil _ _) (List.forall_mem_singleton.2 (by decide))) .none
  have h1 : Factor 20 ['2'] (.num ((⟨2, 0⟩ : Number.Decimal).toFloat false)) :=
    .number htwo (List.forall_mem_singleton.2 (by decide)) (by decide) (by decide)
  have h2 : Factor 20 "(x + y)".toList (.binary "+" (.var "x") (.var "y")) := .parenthesized hsum
  have h3 : Factor 20 "x".toList (.var "x") := .coordinate (by decide)
  have h4 : Factor 20 "MAX(y,x)".toList (.call "max" [.var "y", .var "x"]) :=
    .call (.spelling hspelling) rfl hargs rfl
  have h5 : Factor 20 ['π'] (.num (Float.ofBits 0x400921FB54442D18)) :=
    .constant (by simp [Expr.constants])
  obtain ⟨-, expanded, levels, hl, hc⟩ := build_joined 20 (_, _) [(_, _), (_, _), (_, _), (_, _)]
    (by simpa only [List.forall_mem_cons, List.not_mem_nil] using
      ⟨h1, h2, h3, h4, h5, fun _ h => h.elim⟩) (by decide)
  exact ⟨_, hc.built.trans (if_pos (Nat.le_trans hl (by decide))), rfl⟩

/-! ### Long products -/

theorem height_timesAll {left : Expr} (hl : 0 < left.height) (hf : ∀ g ∈ fs, g.2.height = 1) :
    (timesAll left fs).height = left.height + fs.length := by
  induction fs generalizing left with
  | nil => rfl
  | cons g fs ih =>
    obtain ⟨hg, hf⟩ := List.forall_mem_cons.1 hf
    have hb : (Expr.binary "*" left g.2).height = left.height + 1 := by
      rw [Expr.height, hg, Nat.max_eq_left hl]
    have ht := @ih (.binary "*" left g.2) (hb ▸ Nat.succ_pos _) hf
    rw [timesAll, List.foldl_cons, ← timesAll, ht, hb, List.length_cons]
    omega

/-- A product of coordinates is accepted whatever its length, and its tree is as high as it is long. -/
theorem build_coordinates (n : Nat) :
    ∃ f, Evaluator.build (String.ofList (List.replicate (n + 1) 'x')) = .ok f ∧
      f.tree.height = n + 1 := by
  let x : List Char × Expr := (['x'], .var "x")
  have hfactor : ∀ g ∈ x :: List.replicate n x, Factor 5 g.1 g.2 := by
    intro g hg
    obtain rfl : g = x := List.eq_of_mem_replicate (List.replicate_succ ▸ hg)
    exact (Factor.coordinate (by decide) : Factor 5 "x".toList (.var "x"))
  have hbeside : (x :: List.replicate n x).IsChain Beside := by
    rw [← List.replicate_succ]
    exact List.isChain_replicate_of_rel _ (by decide)
  have htext : joined (x :: List.replicate n x) = List.replicate (n + 1) 'x' := by
    rw [← List.replicate_succ, joined, List.flatMap_replicate]
    simp [x]
  have hheight : (timesAll x.2 (List.replicate n x)).height = n + 1 := by
    have hx : x.2.height = 1 := rfl
    rw [height_timesAll (hx ▸ Nat.one_pos) fun g hg => by rw [List.eq_of_mem_replicate hg]; rfl, hx,
      List.length_replicate, Nat.add_comm]
  obtain ⟨expanded, levels, hl, hc⟩ := compiledAs_joined hfactor hbeside
  rw [htext] at hc
  exact ⟨_, hc.built.trans (if_pos (Nat.le_trans hl (by decide))), hheight⟩

/-- A product of five thousand coordinates is accepted, but its tree is too deep to be evaluated. -/
theorem callGrid_coordinates : ∃ f, Evaluator.build (String.ofList (List.replicate 5000 'x')) = .ok f ∧
    f.callGrid ⟨[1], #[1.0]⟩ ⟨[1], #[1.0]⟩ = .error (.fault .tooDeep) ∧
    f.call 1.0 1.0 = .error .tooDeep := by
  obtain ⟨f, hb, hh⟩ := build_coordinates 4999
  have hw := Evaluator.wellFormed_of_build hb
  have hd : Expr.maxDepth < f.tree.height := by
    rw [hh]
    decide
  exact ⟨f, hb, Expr.evalGrid_eq_tooDeep hw hd rfl rfl rfl, Expr.eval_eq_tooDeep hw ⟨1.0, 1.0⟩ hd⟩

end Relief.Juxtaposition
