import Mathlib
import Relief.Proofs.Yaml.Flow
import Relief.Yaml.Parser

/-!
Tokens of flow collections as trees.
-/
namespace Relief.Yaml

variable {src src' : Source} {t u : Token} {ts us : List Token} {fuel depth d : Nat}

/-! ### Looking at tokens -/

/-- The tokens to come. -/
def At (src : Source) (ts : List Token) : Prop :=
  ∃ n ≤ src.stream.limit, Stream.Gives n src.stream ts

/-- The next token is known, and the tokens behind it are to come. -/
structure Seen (src : Source) (t : Token) (ts : List Token) : Prop where
  head : src.stream.head = .ok (t, src.stream)
  version : src.stream.version = .v12
  here : At src (t :: ts)
  tail : At { src with stream := src.stream.tail } ts

theorem run_bind_ok {α β : Type} {p : Parse α} {f : α → Parse β} {a : α}
    (h : p.run src = .ok (a, src')) : (p >>= f).run src = (f a).run src' := by
  rw [StateT.run_bind, h]
  rfl

theorem peek_of_head {s : Stream} (h : src.stream.head = .ok (t, s)) :
    peek.run src = .ok (t, { src with stream := s }) := by
  have hl : (liftM src.stream.head : Parse (Token × Stream)).run src = .ok ((t, s), src) := by
    rw [h]
    rfl
  have hg : (get : Parse Source).run src = .ok (src, src) := rfl
  rw [peek, run_bind_ok hg, run_bind_ok hl]
  rfl

theorem At.peek (h : At src (t :: ts)) : ∃ src', peek.run src = .ok (t, src') ∧ Seen src' t ts := by
  obtain ⟨n, hn, h⟩ := h
  obtain ⟨s, m, hs, hs', hv, h0, hg, hm⟩ := h.head hn
  exact ⟨_, peek_of_head hs, hs', hv, ⟨0, Nat.zero_le _, h0⟩, m, hm, hg⟩

theorem Seen.peek (h : Seen src t ts) : peek.run src = .ok (t, src) := peek_of_head h.head

theorem Seen.pass (h : Seen src t ts) : ∃ src', pass.run src = .ok ((), src') ∧ At src' ts :=
  ⟨_, rfl, h.tail⟩

theorem Seen.version_run (h : Seen src t ts) : Yaml.version.run src = .ok (.v12, src) := by
  rw [← h.version]
  rfl

theorem At.passIf_of_ne (h : At src (t :: ts)) (hu : t ≠ u) :
    ∃ src', (passIf u).run src = .ok (false, src') ∧ Seen src' t ts := by
  obtain ⟨src', hp, hs⟩ := h.peek
  refine ⟨src', ?_, hs⟩
  rw [passIf, run_bind_ok hp, beq_false_of_ne hu]
  rfl

theorem At.passIf_self (h : At src (t :: ts)) :
    ∃ src', (passIf t).run src = .ok (true, src') ∧ At src' ts := by
  obtain ⟨src', hp, hs⟩ := h.peek
  refine ⟨_, ?_, hs.tail⟩
  rw [passIf, run_bind_ok hp, BEq.rfl]
  rfl

/-- A token without properties. -/
def IsContent (t : Token) : Prop :=
  match t with
  | .scalar .. | .flowStart _ => True
  | _ => False

theorem IsContent.cases (h : IsContent t) :
    (∃ plain text, t = .scalar plain text) ∨ t = .flowStart .square ∨ t = .flowStart .brace := by
  cases t with
  | scalar plain text => exact .inl ⟨plain, text, rfl⟩
  | flowStart b => cases b <;> simp
  | _ => exact h.elim

theorem Seen.props_run (h : Seen src t ts) (ht : IsContent t) :
    props.run src = .ok ((none, none), src) := by
  have hp : propTokens.run src = .ok ((none, none), src) := by
    rw [propTokens, run_bind_ok h.peek]
    cases t <;> first | exact ht.elim | rfl
  rw [props, run_bind_ok hp]
  rfl

/-- What a node is made of, behind its first token. -/
def nodeAfter (fuel depth : Nat) : Token → Parse Node
  | .scalar plain text => pure (.scalar (Kind.ofScalar .v12 none plain text.string) text)
  | .flowStart .square => do return .sequence .sequence (← flowItems fuel (depth + 1) true)
  | .flowStart .brace => do return .mapping .mapping (← flowEntries fuel (depth + 1) true)
  | _ => malformed

theorem node_run {block sameColumn : Bool} (ht : IsContent t) (hd : depth ≤ maxDepth)
    (h : At src (t :: us)) : ∃ src', At src' us ∧
      (node (fuel + 1) depth block sameColumn).run src = (nodeAfter fuel depth t).run src' := by
  obtain ⟨src', hp, hs⟩ := h.peek
  obtain ⟨src'', hpass, hat⟩ := hs.pass
  refine ⟨src'', hat, ?_⟩
  rw [node, if_neg (Nat.not_lt.2 hd), run_bind_ok hp]
  obtain ⟨plain, text, rfl⟩ | rfl | rfl := ht.cases
  all_goals
    dsimp only
    rw [run_bind_ok (hs.props_run trivial)]
    dsimp only
    rw [run_bind_ok hs.peek, run_bind_ok hs.version_run, pure_bind]
    dsimp only
    rw [run_bind_ok hpass]
    rfl

/-! ### Nodes -/

/-- Tokens that make a node, with collections in it so many levels deep. -/
structure Makes (d : Nat) (ts : List Token) (n : Node) : Prop where
  first : ∃ t us, ts = t :: us ∧ IsContent t
  run : ∀ fuel depth block sameColumn src us, ts.length < fuel → depth + d ≤ maxDepth →
    At src (ts ++ us) → ∃ src', (node fuel depth block sameColumn).run src = .ok (n, src') ∧
      At src' us

variable {n : Node}

theorem makes_scalar (plain : Bool) (text : Wording) : Makes 0 [.scalar plain text]
    (.scalar (Kind.ofScalar .v12 none plain text.string) text) where
  first := ⟨_, _, rfl, trivial⟩
  run := by
    intro fuel depth block sameColumn src us hf hd h
    obtain ⟨fuel, rfl⟩ := Nat.exists_eq_succ_of_ne_zero (Nat.ne_zero_of_lt hf)
    have hn : IsContent (.scalar plain text) := trivial
    obtain ⟨src', hat, hr⟩ := @node_run src _ us fuel depth block sameColumn hn hd h
    exact ⟨src', hr.trans rfl, hat⟩

theorem Makes.mono {d' : Nat} (h : Makes d ts n) (hd : d ≤ d') : Makes d' ts n where
  first := h.first
  run fuel depth block sameColumn src us hf hd' :=
    h.run fuel depth block sameColumn src us hf (Nat.le_trans (Nat.add_le_add_left hd depth) hd')

/-- A node where none might stand. -/
theorem Makes.unless (h : Makes d ts n) {ends : List Token} (he : ∀ t ∈ ends, ¬ IsContent t)
    (fuel depth : Nat) (hf : ts.length < fuel) (hd : depth + d ≤ maxDepth)
    (hat : At src (ts ++ us)) : ∃ src',
      (nodeUnless (fuel + 1) depth false false ends).run src = .ok (n, src') ∧ At src' us := by
  obtain ⟨t, ts, rfl, ht⟩ := id h.first
  obtain ⟨src', hp, hs⟩ := hat.peek
  obtain ⟨src'', hr, hat'⟩ := h.run fuel depth false false src' us hf hd hs.here
  have hc : ends.contains t = false := by
    rw [List.contains_eq_mem, decide_eq_false_iff_not]
    exact fun hm => he t hm ht
  refine ⟨src'', ?_, hat'⟩
  rw [nodeUnless, run_bind_ok hp, hc]
  exact hr

/-! ### Entries and items -/

/-- What a key in quotes makes. -/
def keyNode (name : String) : Node := .scalar .text (.text name)

theorem makes_key (name : String) :
    Makes 0 [.scalar false (.text name)] (keyNode name) := makes_scalar false (.text name)

/-- The comma before all elements but the first one. -/
theorem separator_run {first : Bool}
    (h : At src ((if first then [] else [.comma]) ++ us)) :
    ∃ src', (separator first).run src = .ok ((), src') ∧ At src' us := by
  cases first with
  | true => exact ⟨src, rfl, h⟩
  | false =>
    obtain ⟨src', hp, hat⟩ := At.passIf_self (t := .comma) h
    refine ⟨src', ?_, hat⟩
    rw [separator]
    change (passIf .comma >>= fun b => _).run src = _
    rw [run_bind_ok hp]
    rfl

theorem flowEntries_end (fuel depth : Nat) (first : Bool) (h : At src (.flowEnd .brace :: us)) :
    ∃ src', (flowEntries (fuel + 1) depth first).run src = .ok ([], src') ∧ At src' us := by
  obtain ⟨src', hp, hat⟩ := h.passIf_self
  refine ⟨src', ?_, hat⟩
  rw [flowEntries, run_bind_ok hp]
  rfl

/-- An entry, and those behind it. -/
theorem flowEntries_cons (first : Bool) {e : Entry} {es : List (Node × Node)} {vs : List Token}
    (hm : Makes d e.tokens n) (hf : e.tokens.length + 3 ≤ fuel) (hd : depth + d ≤ maxDepth)
    (h : At src ((if first then [] else [.comma]) ++ (e.allTokens ++ us)))
    (hrest : ∀ src, At src us → ∃ src', (flowEntries fuel depth false).run src = .ok (es, src') ∧
      At src' vs) :
    ∃ src', (flowEntries (fuel + 1) depth first).run src =
      .ok ((keyNode e.name, n) :: es, src') ∧ At src' vs := by
  have h0 : ∃ t ts, (if first then [] else [.comma]) ++ (e.allTokens ++ us) = t :: ts ∧
      t ≠ .flowEnd .brace := by
    cases first with
    | true => exact ⟨_, _, rfl, by decide⟩
    | false => exact ⟨_, _, rfl, by decide⟩
  obtain ⟨t, ts, ht, hne⟩ := h0
  rw [ht] at h
  obtain ⟨src1, hp1, hs1⟩ := h.passIf_of_ne hne
  have h1 := hs1.here
  rw [← ht] at h1
  obtain ⟨src2, hp2, h2⟩ := separator_run h1
  obtain ⟨src3, hp3, hs3⟩ := At.passIf_of_ne (t := .key) (u := .flowEnd .brace) h2 (by decide)
  obtain ⟨src4, hp4, h4⟩ := hs3.here.passIf_self
  obtain ⟨fuel, rfl⟩ := Nat.exists_eq_succ_of_ne_zero (show fuel ≠ 0 by omega)
  have hlen : [Token.scalar false (.text e.name)].length < fuel := by
    rw [List.length_singleton]
    omega
  have hends : ∀ t ∈ [Token.value, .comma, .flowEnd .brace], ¬ IsContent t := by simp [IsContent]
  obtain ⟨src5, hp5, h5⟩ := (makes_key e.name).unless hends fuel depth hlen
    (Nat.le_trans (Nat.le_add_right depth d) hd) h4
  obtain ⟨src6, hp6, h6⟩ := At.passIf_self (t := .value) h5
  obtain ⟨src7, hp7, h7⟩ := hm.unless (List.forall_mem_cons.1 hends).2 fuel depth (by omega) hd h6
  obtain ⟨src8, hp8, h8⟩ := hrest src7 h7
  refine ⟨src8, ?_, h8⟩
  rw [flowEntries, run_bind_ok hp1]
  dsimp only
  rw [if_neg Bool.false_ne_true, run_bind_ok hp2, run_bind_ok hp3, if_neg Bool.false_ne_true,
    run_bind_ok hs3.peek, run_bind_ok hs3.version_run, if_pos (by decide), run_bind_ok hp4,
    if_pos rfl, run_bind_ok hp5, run_bind_ok hp6, if_pos rfl, run_bind_ok hp7, pure_bind,
    run_bind_ok hp8]
  rfl

theorem flowEntries_rest {ps : List (Entry × Node)} (hm : ∀ p ∈ ps, Makes d p.1.tokens p.2)
    (hf : (ps.flatMap fun p => .comma :: p.1.allTokens).length < fuel) (hd : depth + d ≤ maxDepth)
    (h : At src (ps.flatMap (fun p => .comma :: p.1.allTokens) ++ .flowEnd .brace :: us)) :
    ∃ src', (flowEntries fuel depth false).run src =
      .ok (ps.map fun p => (keyNode p.1.name, p.2), src') ∧ At src' us := by
  induction ps generalizing fuel src with
  | nil =>
    obtain ⟨fuel, rfl⟩ := Nat.exists_eq_succ_of_ne_zero (Nat.ne_zero_of_lt hf)
    exact flowEntries_end fuel depth false h
  | cons p ps ih =>
    obtain ⟨hp, hps⟩ := List.forall_mem_cons.1 hm
    obtain ⟨fuel, rfl⟩ := Nat.exists_eq_succ_of_ne_zero (Nat.ne_zero_of_lt hf)
    rw [List.flatMap_cons, List.length_append, List.length_cons] at hf
    have hlen : p.1.allTokens.length = p.1.tokens.length + 3 := rfl
    rw [List.flatMap_cons, List.append_assoc] at h
    exact flowEntries_cons false hp (by omega) hd h fun src hsrc =>
      ih hps (by omega) hsrc

/-- An object makes a mapping. -/
theorem makes_object {p : Entry × Node} {ps : List (Entry × Node)}
    (hp : Makes d p.1.tokens p.2) (hps : ∀ p ∈ ps, Makes d p.1.tokens p.2) :
    Makes (d + 1) (objectTokens p.1 (ps.map Prod.fst))
      (.mapping .mapping ((p :: ps).map fun p => (keyNode p.1.name, p.2))) where
  first := ⟨_, _, rfl, trivial⟩
  run := by
    intro fuel depth block sameColumn src us hf hd h
    obtain ⟨fuel, rfl⟩ := Nat.exists_eq_succ_of_ne_zero (Nat.ne_zero_of_lt hf)
    have hn : IsContent (.flowStart .brace) := trivial
    have hlen : p.1.allTokens.length = p.1.tokens.length + 3 := rfl
    rw [objectTokens, List.flatMap_map, List.cons_append, List.append_assoc, List.append_assoc] at h
    rw [objectTokens, List.flatMap_map, List.length_cons, List.length_append, List.length_append,
      List.length_singleton] at hf
    obtain ⟨src1, h1, hr⟩ := @node_run src _ _ fuel depth block sameColumn hn (by omega) h
    obtain ⟨fuel, rfl⟩ := Nat.exists_eq_succ_of_ne_zero (show fuel ≠ 0 by omega)
    have hrest : ∀ src, At src (ps.flatMap (fun p => .comma :: p.1.allTokens) ++
        ([.flowEnd .brace] ++ us)) → ∃ src', (flowEntries fuel (depth + 1) false).run src =
          .ok (ps.map fun p => (keyNode p.1.name, p.2), src') ∧ At src' us := fun src hsrc =>
      flowEntries_rest hps (by omega) (by omega) hsrc
    obtain ⟨src2, h2, hat⟩ := flowEntries_cons true hp (by omega) (by omega) h1 hrest
    refine ⟨src2, ?_, hat⟩
    rw [hr, nodeAfter, run_bind_ok h2]
    rfl

theorem flowItems_end (fuel depth : Nat) (first : Bool) (h : At src (.flowEnd .square :: us)) :
    ∃ src', (flowItems (fuel + 1) depth first).run src = .ok ([], src') ∧ At src' us := by
  obtain ⟨src', hp, hat⟩ := h.passIf_self
  refine ⟨src', ?_, hat⟩
  rw [flowItems, run_bind_ok hp]
  rfl

/-- An item, and those behind it. -/
theorem flowItems_cons (first : Bool) {ns : List Node} {vs : List Token} (hm : Makes d ts n)
    (hf : ts.length < fuel) (hd : depth + d ≤ maxDepth)
    (h : At src ((if first then [] else [.comma]) ++ (ts ++ us)))
    (hrest : ∀ src, At src us → ∃ src', (flowItems fuel depth false).run src = .ok (ns, src') ∧
      At src' vs) :
    ∃ src', (flowItems (fuel + 1) depth first).run src = .ok (n :: ns, src') ∧ At src' vs := by
  obtain ⟨u, ts, rfl, hu⟩ := id hm.first
  have hne : ∀ t : Token, ¬ IsContent t → u ≠ t := by
    rintro t ht rfl
    exact ht hu
  have h0 : ∃ t ts', (if first then [] else [.comma]) ++ (u :: ts ++ us) = t :: ts' ∧
      t ≠ .flowEnd .square := by
    cases first with
    | true => exact ⟨_, _, rfl, hne _ id⟩
    | false => exact ⟨_, _, rfl, by decide⟩
  obtain ⟨t, ts', ht, hne'⟩ := h0
  rw [ht] at h
  obtain ⟨src1, hp1, hs1⟩ := h.passIf_of_ne hne'
  have h1 := hs1.here
  rw [← ht] at h1
  obtain ⟨src2, hp2, h2⟩ := separator_run h1
  obtain ⟨src3, hp3, hs3⟩ := h2.passIf_of_ne (hne (.flowEnd .square) id)
  obtain ⟨src4, hp4, hs4⟩ := hs3.here.passIf_of_ne (hne .key id)
  obtain ⟨src5, hp5, h5⟩ := hm.run fuel depth false false src4 us hf hd hs4.here
  obtain ⟨src6, hp6, h6⟩ := hrest src5 h5
  refine ⟨src6, ?_, h6⟩
  rw [flowItems, run_bind_ok hp1]
  dsimp only
  rw [if_neg Bool.false_ne_true, run_bind_ok hp2, run_bind_ok hp3, if_neg Bool.false_ne_true,
    run_bind_ok hp4, if_neg Bool.false_ne_true, run_bind_ok hp5, run_bind_ok hp6]
  rfl

theorem flowItems_rest {ps : List (Item × Node)} (hm : ∀ p ∈ ps, Makes d p.1.tokens p.2)
    (hf : (ps.flatMap fun p => .comma :: p.1.tokens).length < fuel) (hd : depth + d ≤ maxDepth)
    (h : At src (ps.flatMap (fun p => .comma :: p.1.tokens) ++ .flowEnd .square :: us)) :
    ∃ src', (flowItems fuel depth false).run src = .ok (ps.map Prod.snd, src') ∧ At src' us := by
  induction ps generalizing fuel src with
  | nil =>
    obtain ⟨fuel, rfl⟩ := Nat.exists_eq_succ_of_ne_zero (Nat.ne_zero_of_lt hf)
    exact flowItems_end fuel depth false h
  | cons p ps ih =>
    obtain ⟨hp, hps⟩ := List.forall_mem_cons.1 hm
    obtain ⟨fuel, rfl⟩ := Nat.exists_eq_succ_of_ne_zero (Nat.ne_zero_of_lt hf)
    rw [List.flatMap_cons, List.length_append, List.length_cons] at hf
    rw [List.flatMap_cons, List.append_assoc] at h
    exact flowItems_cons false hp (by omega) hd h fun src hsrc =>
      ih hps (by omega) hsrc

/-- A list makes a sequence. -/
theorem makes_list {p : Item × Node} {ps : List (Item × Node)}
    (hp : Makes d p.1.tokens p.2) (hps : ∀ p ∈ ps, Makes d p.1.tokens p.2) :
    Makes (d + 1) (listTokens p.1 (ps.map Prod.fst))
      (.sequence .sequence ((p :: ps).map Prod.snd)) where
  first := ⟨_, _, rfl, trivial⟩
  run := by
    intro fuel depth block sameColumn src us hf hd h
    obtain ⟨fuel, rfl⟩ := Nat.exists_eq_succ_of_ne_zero (Nat.ne_zero_of_lt hf)
    have hn : IsContent (.flowStart .square) := trivial
    rw [listTokens, List.flatMap_map, List.cons_append, List.append_assoc, List.append_assoc] at h
    rw [listTokens, List.flatMap_map, List.length_cons, List.length_append, List.length_append,
      List.length_singleton] at hf
    obtain ⟨src1, h1, hr⟩ := @node_run src _ _ fuel depth block sameColumn hn (by omega) h
    obtain ⟨fuel, rfl⟩ := Nat.exists_eq_succ_of_ne_zero (show fuel ≠ 0 by omega)
    have hrest : ∀ src, At src (ps.flatMap (fun p => .comma :: p.1.tokens) ++
        ([.flowEnd .square] ++ us)) → ∃ src', (flowItems fuel (depth + 1) false).run src =
          .ok (ps.map Prod.snd, src') ∧ At src' us := fun src hsrc =>
      flowItems_rest hps (by omega) (by omega) hsrc
    obtain ⟨src2, h2, hat⟩ := flowItems_cons true hp (by omega) (by omega) h1 hrest
    refine ⟨src2, ?_, hat⟩
    rw [hr, nodeAfter, run_bind_ok h2]
    rfl

theorem makes_empty : Makes 1 [.flowStart .square, .flowEnd .square] (.sequence .sequence []) where
  first := ⟨_, _, rfl, trivial⟩
  run := by
    intro fuel depth block sameColumn src us hf hd h
    obtain ⟨fuel, rfl⟩ := Nat.exists_eq_add_of_le' (show 2 ≤ fuel from Nat.le_of_succ_le hf)
    have hn : IsContent (.flowStart .square) := trivial
    obtain ⟨src1, h1, hr⟩ := @node_run src _ _ (fuel + 1) depth block sameColumn hn (by omega) h
    obtain ⟨src2, h2, hat⟩ := flowItems_end fuel (depth + 1) true h1
    refine ⟨src2, ?_, hat⟩
    rw [hr, nodeAfter, run_bind_ok h2]
    rfl

end Relief.Yaml
