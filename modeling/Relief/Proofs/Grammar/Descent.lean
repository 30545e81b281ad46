import Relief.Proofs.Grammar.Derivation
import Relief.Proofs.Outcome

/-!
Recursive descent finds exactly the derivations: it reads what an allowed derivation spells if it has
the levels for it, and whatever it reads is spelled by one.
-/
namespace Relief.Grammar

open Relief.Token Relief.Parser

/-- The kinds of tokens. -/
abbrev kinds (ts : List Token) : List Kind := ts.map (·.kind)

/-- What it means that the procedure of a nonterminal reads some tokens up to a rest. The repeated
parts are loops with a limit and, for operators, with the expression so far. -/
def Reads (levels : Nat) : (s : Symbol) → Meaning s → (ts rest : List Token) → Prop
  | .additive, t, ts, rest => additive levels ts = .ok (t, rest)
  | .terms, f, ts, rest => ∀ limit left, ts.length ≤ limit →
    chain additiveOp? (multiplicative levels) limit left ts = .ok (f left, rest)
  | .multiplicative, t, ts, rest => multiplicative levels ts = .ok (t, rest)
  | .factors, f, ts, rest => ∀ limit left, ts.length ≤ limit →
    chain multiplicativeOp? (unary levels) limit left ts = .ok (f left, rest)
  | .unary, t, ts, rest => unary levels ts = .ok (t, rest)
  | .power, t, ts, rest => power levels ts = .ok (t, rest)
  | .atom, t, ts, rest => atom levels ts = .ok (t, rest)
  | .arguments, as, ts, rest => arguments (additive levels) ts = .ok (as, rest)
  | .moreArguments, as, ts, rest => ∀ limit, ts.length ≤ limit →
    commaList (additive levels) limit ts = .ok (as, rest)

section Loops

variable {op? : Kind → Option String} {operand : Parse Expr} {t : Token} {ts rest rest' : List Token}

theorem chain_stop (h : op? t.kind = none) {limit : Nat} {left : Expr}
    (hl : (t :: rest).length ≤ limit) :
    chain op? operand limit left (t :: rest) = .ok (left, t :: rest) := by
  cases limit with
  | zero => simp at hl
  | succ limit => simp [chain, h]

theorem chain_step {op : String} {right e : Expr} (h : op? t.kind = some op)
    (hr : operand ts = .ok (right, rest)) (hle : rest.length ≤ ts.length)
    {limit : Nat} {left : Expr} (hl : (t :: ts).length ≤ limit)
    (hc : ∀ limit, rest.length ≤ limit →
      chain op? operand limit (.binary op left right) rest = .ok (e, rest')) :
    chain op? operand limit left (t :: ts) = .ok (e, rest') := by
  cases limit with
  | zero => simp at hl
  | succ limit =>
    simp only [chain, h, hr, bind, Except.bind]
    exact hc limit (Nat.le_trans hle (Nat.le_of_succ_le_succ hl))

theorem commaList_stop (h : t.kind = .closeParen) {limit : Nat}
    (hl : (t :: rest).length ≤ limit) :
    commaList operand limit (t :: rest) = .ok ([], t :: rest) := by
  cases limit with
  | zero => simp at hl
  | succ limit => simp [commaList, h]

theorem commaList_step {arg : Expr} {args : List Expr} (h : t.kind = .comma)
    (hr : operand ts = .ok (arg, rest)) (hle : rest.length ≤ ts.length)
    {limit : Nat} (hl : (t :: ts).length ≤ limit)
    (hc : ∀ limit, rest.length ≤ limit → commaList operand limit rest = .ok (args, rest')) :
    commaList operand limit (t :: ts) = .ok (arg :: args, rest') := by
  cases limit with
  | zero => simp at hl
  | succ limit =>
    simp only [commaList, h, hr, hc limit (Nat.le_trans hle (Nat.le_of_succ_le_succ hl)), bind,
      Except.bind, pure, Except.pure]

end Loops

theorem Follows.exists_cons {s : Symbol} {ts : List Token} (h : Follows s (kinds ts)) :
    ∃ t rest, ts = t :: rest := by
  obtain ⟨k, ks, hk, -⟩ := h
  cases ts with
  | nil => cases hk
  | cons t rest => exact ⟨t, rest, rfl⟩

theorem kinds_append_eq {pre rest : List Token} {ks : List Kind} (h : kinds pre = ks) :
    kinds (pre ++ rest) = ks ++ kinds rest := by
  rw [← h]
  exact List.map_append

theorem follows_of_closing {s : Symbol} {c : Token} {ts : List Token} (h : c.kind = .closeParen) :
    Follows s (kinds (c :: ts)) := by
  simp only [kinds, List.map_cons, h]
  exact follows_closing

theorem Follows.kind_eq {k : Kind} {ks : List Kind} (h : Follows .arguments (k :: ks)) :
    k = .closeParen := by
  have hc := h.head
  cases k <;> simp_all [continues, isClosing]

theorem exists_level {n levels : Nat} (h : n + 1 ≤ levels) : ∃ l, levels = l + 1 ∧ n ≤ l := by
  cases levels with
  | zero => cases h
  | succ levels => exact ⟨levels, rfl, Nat.le_of_succ_le_succ h⟩

theorem Follows.additiveOp?_eq_none {k : Kind} {ks : List Kind} (h : Follows .terms (k :: ks)) :
    additiveOp? k = none := by
  have hc := h.head
  simp only [continues, Bool.or_eq_false_iff, Option.isSome_eq_false_iff,
    Option.isNone_iff_eq_none] at hc
  exact hc.2

theorem Follows.multiplicativeOp?_eq_none {k : Kind} {ks : List Kind}
    (h : Follows .factors (k :: ks)) : multiplicativeOp? k = none := by
  have hc := h.head
  simp only [continues, Bool.or_eq_false_iff, Option.isSome_eq_false_iff,
    Option.isNone_iff_eq_none] at hc
  exact hc.2

/-! ### The rules, as the procedures read them -/

namespace Reads

variable {levels : Nat} {op name : String} {t o c : Token} {ts mid rest : List Token}
  {left right arg : Expr} {f : Expr → Expr} {args : List Expr}

theorem additive (hm : Reads levels .multiplicative left ts mid)
    (ht : Reads levels .terms f mid rest) : Reads (levels + 1) .additive (f left) ts rest := by
  simp only [Reads, Parser.additive] at hm ht ⊢
  rw [hm]
  exact ht _ _ (Nat.le_refl _)

theorem multiplicative (hu : Reads levels .unary left ts mid)
    (hf : Reads levels .factors f mid rest) :
    Reads (levels + 1) .multiplicative (f left) ts rest := by
  simp only [Reads, Parser.multiplicative] at hu hf ⊢
  rw [hu]
  exact hf _ _ (Nat.le_refl _)

theorem endTerms (h : Follows .terms (kinds ts)) : Reads levels .terms id ts ts := by
  obtain ⟨t, rest, rfl⟩ := h.exists_cons
  exact fun limit left hlim => chain_stop h.additiveOp?_eq_none hlim

theorem endFactors (h : Follows .factors (kinds ts)) : Reads levels .factors id ts ts := by
  obtain ⟨t, rest, rfl⟩ := h.exists_cons
  exact fun limit left hlim => chain_stop h.multiplicativeOp?_eq_none hlim

theorem term (h : additiveOp? t.kind = some op) (hm : Reads levels .multiplicative right ts mid)
    (hle : mid.length ≤ ts.length) (ht : Reads levels .terms f mid rest) :
    Reads levels .terms (fun left => f (.binary op left right)) (t :: ts) rest :=
  fun _ _ hlim => chain_step h hm hle hlim fun limit hlim => ht limit _ hlim

theorem factor (h : multiplicativeOp? t.kind = some op) (hu : Reads levels .unary right ts mid)
    (hle : mid.length ≤ ts.length) (hf : Reads levels .factors f mid rest) :
    Reads levels .factors (fun left => f (.binary op left right)) (t :: ts) rest :=
  fun _ _ hlim => chain_step h hu hle hlim fun limit hlim => hf limit _ hlim

theorem signed (h : additiveOp? t.kind = some op) (hu : Reads levels .unary right ts rest) :
    Reads (levels + 1) .unary (.unary op right) (t :: ts) rest := by
  simp only [Reads, Parser.unary, h] at hu ⊢
  rw [hu]
  rfl

theorem unsigned (h : additiveOp? t.kind = none) (hp : Reads levels .power right (t :: ts) rest) :
    Reads (levels + 1) .unary right (t :: ts) rest := by
  simp only [Reads, Parser.unary, h] at hp ⊢
  exact hp

theorem plain (h : Follows .power (kinds rest)) (ha : Reads levels .atom left ts rest) :
    Reads (levels + 1) .power left ts rest := by
  obtain ⟨t, rest, rfl⟩ := h.exists_cons
  have hc := h.head
  simp only [Reads, Parser.power] at ha ⊢
  rw [ha]
  simp only [bind, Except.bind]
  split
  · next he => simp [continues, isCaret, he] at hc
  · rfl

theorem raised (h : t.kind = .caret) (ha : Reads levels .atom left ts (t :: mid))
    (hu : Reads levels .unary right mid rest) :
    Reads (levels + 1) .power (.binary "^" left right) ts rest := by
  simp only [Reads, Parser.power] at ha hu ⊢
  rw [ha]
  simp only [bind, Except.bind, h, hu]
  rfl

theorem number {value : Float} (h : t.kind = .number value) :
    Reads (levels + 1) .atom (.num value) (t :: rest) rest := by
  simp [Reads, Parser.atom, h]

theorem var (h : t.kind = .var name) : Reads (levels + 1) .atom (.var name) (t :: rest) rest := by
  simp [Reads, Parser.atom, h]

theorem parenthesized (ho : o.kind = .openParen) (ha : Reads levels .additive left ts (c :: rest))
    (hc : c.kind = .closeParen) : Reads (levels + 1) .atom left (o :: ts) rest := by
  simp only [Reads, Parser.atom, ho] at ha ⊢
  rw [ha]
  simp [bind, Except.bind, expectClose, hc, pure, Except.pure]

theorem call {function : Expr.Function} (ht : t.kind = .func name)
    (hf : Expr.function? name = some function) (ho : o.kind = .openParen)
    (ha : Reads levels .arguments args ts (c :: rest)) (hc : c.kind = .closeParen)
    (hn : function.accepts args.length = true) :
    Reads (levels + 2) .atom (.call name args) (t :: o :: ts) rest := by
  simp only [Reads, Parser.atom, ht, Parser.functionCall, hf, expectOpen, ho] at ha ⊢
  simp only [bind, Except.bind, ha, expectClose, hc, hn]
  rfl

theorem noArguments (h : Follows .arguments (kinds ts)) : Reads levels .arguments [] ts ts := by
  obtain ⟨t, rest, rfl⟩ := h.exists_cons
  simp only [Reads, Parser.arguments, h.kind_eq]

theorem someArguments (h : isClosing t.kind = false) (ha : Reads levels .additive arg (t :: ts) mid)
    (hs : Reads levels .moreArguments args mid rest) :
    Reads levels .arguments (arg :: args) (t :: ts) rest := by
  simp only [Reads, Parser.arguments] at ha hs ⊢
  split
  · next he => simp [isClosing, he] at h
  · rw [ha]
    simp only [bind, Except.bind, hs _ (Nat.le_refl _)]
    rfl

theorem endArguments (h : Follows .moreArguments (kinds ts)) :
    Reads levels .moreArguments [] ts ts := by
  obtain ⟨t, rest, rfl⟩ := h.exists_cons
  exact fun limit hlim => commaList_stop h.kind_eq hlim

theorem argument (h : t.kind = .comma) (ha : Reads levels .additive arg ts mid)
    (hle : mid.length ≤ ts.length) (hs : Reads levels .moreArguments args mid rest) :
    Reads levels .moreArguments (arg :: args) (t :: ts) rest :=
  fun _ hlim => commaList_step h ha hle hlim hs

end Reads

namespace Derivation

/-- A derivation is found wherever what it spells is not continued. -/
theorem reads {s : Symbol} (d : Derivation s) (levels : Nat) (pre rest : List Token)
    (hp : kinds pre = d.yield) (hl : d.levels ≤ levels) (ha : d.Allowed)
    (hf : Follows s (kinds rest)) : Reads levels s d.tree (pre ++ rest) rest := by
  induction d generalizing levels pre rest with
  | additive m ts ihm iht =>
    obtain ⟨pm, pt, rfl, hm, ht⟩ := List.map_eq_append_iff.1 hp
    obtain ⟨levels, rfl, hl'⟩ := exists_level hl
    have hfm : Follows .multiplicative (kinds (pt ++ rest)) := by
      rw [kinds_append_eq ht]
      exact ts.follows_terms hf
    rw [List.append_assoc]
    exact .additive (ihm levels pm _ hm (Nat.max_le.1 hl').1 ha.1 hfm)
      (iht levels pt rest ht (Nat.max_le.1 hl').2 ha.2 hf)
  | endTerms =>
    obtain rfl := List.map_eq_nil_iff.1 hp
    exact .endTerms hf
  | term k op hk m ts ihm iht =>
    obtain ⟨t, p, rfl, rfl, hq⟩ := List.map_eq_cons_iff.1 hp
    obtain ⟨pm, pt, rfl, hm, ht⟩ := List.map_eq_append_iff.1 hq
    have hfm : Follows .multiplicative (kinds (pt ++ rest)) := by
      rw [kinds_append_eq ht]
      exact ts.follows_terms hf
    rw [List.cons_append, List.append_assoc]
    exact .term hk (ihm levels pm _ hm (Nat.max_le.1 hl).1 ha.1 hfm) (by simp)
      (iht levels pt rest ht (Nat.max_le.1 hl).2 ha.2 hf)
  | multiplicative u fs ihu ihf =>
    obtain ⟨pu, pf, rfl, hu, hfs⟩ := List.map_eq_append_iff.1 hp
    obtain ⟨levels, rfl, hl'⟩ := exists_level hl
    have hfu : Follows .unary (kinds (pf ++ rest)) := by
      rw [kinds_append_eq hfs]
      exact fs.follows_factors hf
    rw [List.append_assoc]
    exact .multiplicative (ihu levels pu _ hu (Nat.max_le.1 hl').1 ha.1 hfu)
      (ihf levels pf rest hfs (Nat.max_le.1 hl').2 ha.2 hf)
  | endFactors =>
    obtain rfl := List.map_eq_nil_iff.1 hp
    exact .endFactors hf
  | factor k op hk u fs ihu ihf =>
    obtain ⟨t, p, rfl, rfl, hq⟩ := List.map_eq_cons_iff.1 hp
    obtain ⟨pu, pf, rfl, hu, hfs⟩ := List.map_eq_append_iff.1 hq
    have hfu : Follows .unary (kinds (pf ++ rest)) := by
      rw [kinds_append_eq hfs]
      exact fs.follows_factors hf
    rw [List.cons_append, List.append_assoc]
    exact .factor hk (ihu levels pu _ hu (Nat.max_le.1 hl).1 ha.1 hfu) (by simp)
      (ihf levels pf rest hfs (Nat.max_le.1 hl).2 ha.2 hf)
  | signed k op hk u ih =>
    obtain ⟨t, p, rfl, rfl, hq⟩ := List.map_eq_cons_iff.1 hp
    obtain ⟨levels, rfl, hl'⟩ := exists_level hl
    exact .signed hk (ih levels p rest hq hl' ha hf)
  | unsigned d ih =>
    obtain ⟨levels, rfl, hl'⟩ := exists_level hl
    have hr := ih levels pre rest hp hl' ha hf
    obtain ⟨k, ks, hy, hk⟩ := d.power_begins
    obtain ⟨t, p, rfl, rfl, -⟩ := List.map_eq_cons_iff.1 (hp.trans hy)
    exact .unsigned (additiveOp?_of_beginsAtom hk) hr
  | plain a ih =>
    obtain ⟨levels, rfl, hl'⟩ := exists_level hl
    exact .plain hf (ih levels pre rest hp hl' ha hf.atom)
  | raised a u iha ihu =>
    obtain ⟨pa, p, rfl, hpa, hp⟩ := List.map_eq_append_iff.1 hp
    obtain ⟨t, pu, rfl, ht, hpu⟩ := List.map_eq_cons_iff.1 hp
    obtain ⟨levels, rfl, hl'⟩ := exists_level hl
    rw [List.append_assoc]
    exact .raised ht (iha levels pa _ hpa (Nat.max_le.1 hl').1 ha.1 ⟨_, _, rfl, rfl⟩)
      (ihu levels pu rest hpu (Nat.max_le.1 hl').2 ha.2 hf)
  | number value =>
    obtain ⟨t, p, rfl, ht, hp⟩ := List.map_eq_cons_iff.1 hp
    obtain rfl := List.map_eq_nil_iff.1 hp
    obtain ⟨levels, rfl, -⟩ := exists_level hl
    exact .number ht
  | var name =>
    obtain ⟨t, p, rfl, ht, hp⟩ := List.map_eq_cons_iff.1 hp
    obtain rfl := List.map_eq_nil_iff.1 hp
    obtain ⟨levels, rfl, -⟩ := exists_level hl
    exact .var ht
  | parenthesized a ih =>
    obtain ⟨o, p, rfl, ho, hp⟩ := List.map_eq_cons_iff.1 hp
    obtain ⟨pa, p, rfl, hpa, hp⟩ := List.map_eq_append_iff.1 hp
    obtain ⟨c, p, rfl, hc, hp⟩ := List.map_eq_cons_iff.1 hp
    obtain rfl := List.map_eq_nil_iff.1 hp
    obtain ⟨levels, rfl, hl'⟩ := exists_level hl
    rw [List.cons_append, List.append_assoc]
    exact .parenthesized ho (ih levels pa (c :: rest) hpa hl' ha (follows_of_closing hc)) hc
  | call name as ih =>
    obtain ⟨t, p, rfl, ht, hp⟩ := List.map_eq_cons_iff.1 hp
    obtain ⟨o, p, rfl, ho, hp⟩ := List.map_eq_cons_iff.1 hp
    obtain ⟨pa, p, rfl, hpa, hp⟩ := List.map_eq_append_iff.1 hp
    obtain ⟨c, p, rfl, hc, hp⟩ := List.map_eq_cons_iff.1 hp
    obtain rfl := List.map_eq_nil_iff.1 hp
    obtain ⟨haa, function, hfun, hacc⟩ := ha
    obtain ⟨levels, rfl, hl'⟩ := exists_level hl
    obtain ⟨levels, rfl, hl''⟩ := exists_level hl'
    rw [List.cons_append, List.cons_append, List.append_assoc]
    exact .call ht hfun ho (ih levels pa (c :: rest) hpa hl'' haa (follows_of_closing hc)) hc hacc
  | noArguments =>
    obtain rfl := List.map_eq_nil_iff.1 hp
    exact .noArguments hf
  | someArguments a as iha ihs =>
    obtain ⟨pa, ps, rfl, hpa, hps⟩ := List.map_eq_append_iff.1 hp
    have hfa : Follows .additive (kinds (ps ++ rest)) := by
      rw [kinds_append_eq hps]
      exact as.follows_moreArguments hf
    have hr := iha levels pa (ps ++ rest) hpa (Nat.max_le.1 hl).1 ha.1 hfa
    obtain ⟨k, ks, hy, hk⟩ := a.additive_begins
    obtain ⟨t, p, rfl, rfl, -⟩ := List.map_eq_cons_iff.1 (hpa.trans hy)
    rw [List.append_assoc]
    exact .someArguments hk hr (ihs levels ps rest hps (Nat.max_le.1 hl).2 ha.2 hf)
  | endArguments =>
    obtain rfl := List.map_eq_nil_iff.1 hp
    exact .endArguments hf
  | argument a as iha ihs =>
    obtain ⟨t, p, rfl, ht, hp⟩ := List.map_eq_cons_iff.1 hp
    obtain ⟨pa, ps, rfl, hpa, hps⟩ := List.map_eq_append_iff.1 hp
    have hfa : Follows .additive (kinds (ps ++ rest)) := by
      rw [kinds_append_eq hps]
      exact as.follows_moreArguments hf
    rw [List.cons_append, List.append_assoc]
    exact .argument ht (iha levels pa _ hpa (Nat.max_le.1 hl).1 ha.1 hfa) (by simp)
      (ihs levels ps rest hps (Nat.max_le.1 hl).2 ha.2 hf)

end Derivation

/-! ### Whatever is read is derived -/

/-- A derivation with the given meaning spells the tokens up to a rest. -/
def Derived (levels : Nat) (s : Symbol) (m : Meaning s) (ts rest : List Token) : Prop :=
  ∃ d : Derivation s, d.tree = m ∧ d.Allowed ∧ d.levels ≤ levels ∧
    ∃ pre, ts = pre ++ rest ∧ kinds pre = d.yield

section Loops

variable {levels : Nat} {ts rest : List Token}

/-- What holds of a chain without operands and carries over to one with an operand more holds of every
chain that is read. -/
theorem chain_induction {op? : Kind → Option String} {operand : Parse Expr}
    {P : (Expr → Expr) → List Token → List Token → Prop} (hn : ∀ ts, P id ts ts)
    (hc : ∀ t op right ts ts' rest f, op? t.kind = some op → operand ts = .ok (right, ts') →
      P f ts' rest → P (fun left => f (.binary op left right)) (t :: ts) rest)
    (limit : Nat) (left e : Expr) (h : chain op? operand limit left ts = .ok (e, rest)) :
    ∃ f, f left = e ∧ P f ts rest := by
  induction limit generalizing left ts with
  | zero => simp [chain] at h
  | succ limit ih =>
    cases ts with
    | nil => simp [chain] at h
    | cons t ts =>
      simp only [chain] at h
      split at h
      · cases h
        exact ⟨id, rfl, hn _⟩
      · next op he =>
        obtain ⟨⟨right, ts'⟩, hr, h⟩ := bind_eq_ok_iff.1 h
        obtain ⟨f, rfl, hf⟩ := ih _ h
        exact ⟨_, rfl, hc t op right ts ts' rest f he hr hf⟩

theorem derived_terms
    (hm : ∀ ts t rest, multiplicative levels ts = .ok (t, rest) →
      Derived levels .multiplicative t ts rest)
    (limit : Nat) (left e : Expr)
    (h : chain additiveOp? (multiplicative levels) limit left ts = .ok (e, rest)) :
    ∃ f, f left = e ∧ Derived levels .terms f ts rest := by
  apply chain_induction _ _ limit left e h
  · exact fun ts => ⟨.endTerms, rfl, trivial, Nat.zero_le _, [], rfl, rfl⟩
  · rintro t op right ts ts' rest f he hr ⟨ds, rfl, has, hls, pre', rfl, hps⟩
    obtain ⟨d, rfl, ha, hl, pre, rfl, hp⟩ := hm _ _ _ hr
    refine ⟨.term t.kind op he d ds, rfl, ⟨ha, has⟩, Nat.max_le.2 ⟨hl, hls⟩,
      t :: (pre ++ pre'), by simp, ?_⟩
    simp [Derivation.yield, ← hp, ← hps]

theorem derived_factors
    (hu : ∀ ts t rest, unary levels ts = .ok (t, rest) → Derived levels .unary t ts rest)
    (limit : Nat) (left e : Expr)
    (h : chain multiplicativeOp? (unary levels) limit left ts = .ok (e, rest)) :
    ∃ f, f left = e ∧ Derived levels .factors f ts rest := by
  apply chain_induction _ _ limit left e h
  · exact fun ts => ⟨.endFactors, rfl, trivial, Nat.zero_le _, [], rfl, rfl⟩
  · rintro t op right ts ts' rest f he hr ⟨ds, rfl, has, hls, pre', rfl, hps⟩
    obtain ⟨d, rfl, ha, hl, pre, rfl, hp⟩ := hu _ _ _ hr
    refine ⟨.factor t.kind op he d ds, rfl, ⟨ha, has⟩, Nat.max_le.2 ⟨hl, hls⟩,
      t :: (pre ++ pre'), by simp, ?_⟩
    simp [Derivation.yield, ← hp, ← hps]

variable (ha : ∀ ts t rest, additive levels ts = .ok (t, rest) → Derived levels .additive t ts rest)

include ha

theorem derived_moreArguments (limit : Nat) (args : List Expr)
    (h : commaList (additive levels) limit ts = .ok (args, rest)) :
    Derived levels .moreArguments args ts rest := by
  induction limit generalizing ts args with
  | zero => simp [commaList] at h
  | succ limit ih =>
    cases ts with
    | nil => simp [commaList] at h
    | cons t ts =>
      simp only [commaList] at h
      split at h
      · next he =>
        obtain ⟨⟨arg, ts'⟩, hr, hc⟩ := bind_eq_ok_iff.1 h
        obtain ⟨⟨args', ts''⟩, hs, hc⟩ := bind_eq_ok_iff.1 hc
        cases hc
        obtain ⟨d, rfl, had, hl, pre, rfl, hp⟩ := ha _ _ _ hr
        obtain ⟨ds, rfl, has, hls, pre', rfl, hps⟩ := ih _ hs
        refine ⟨.argument d ds, rfl, ⟨had, has⟩, Nat.max_le.2 ⟨hl, hls⟩, t :: (pre ++ pre'),
          by simp, ?_⟩
        simp [Derivation.yield, ← hp, ← hps, he]
      · cases h
        exact ⟨.endArguments, rfl, trivial, Nat.zero_le _, [], rfl, rfl⟩

theorem derived_arguments (args : List Expr)
    (h : arguments (additive levels) ts = .ok (args, rest)) :
    Derived levels .arguments args ts rest := by
  cases ts with
  | nil => simp [Parser.arguments] at h
  | cons t ts =>
    simp only [Parser.arguments] at h
    split at h
    · cases h
      exact ⟨.noArguments, rfl, trivial, Nat.zero_le _, [], rfl, rfl⟩
    · obtain ⟨⟨arg, ts'⟩, hr, hc⟩ := bind_eq_ok_iff.1 h
      obtain ⟨⟨args', ts''⟩, hs, hc⟩ := bind_eq_ok_iff.1 hc
      cases hc
      obtain ⟨d, rfl, had, hl, pre, he, hp⟩ := ha _ _ _ hr
      obtain ⟨ds, rfl, has, hls, pre', rfl, hps⟩ := derived_moreArguments ha _ _ hs
      exact ⟨.someArguments d ds, rfl, ⟨had, has⟩, Nat.max_le.2 ⟨hl, hls⟩, pre ++ pre',
        by simp [he], by simp [Derivation.yield, ← hp, ← hps]⟩

end Loops

theorem expectOpen_eq_ok {ts rest : List Token} (h : expectOpen ts = .ok rest) :
    ∃ t, t.kind = .openParen ∧ ts = t :: rest := by
  cases ts with
  | nil => cases h
  | cons t ts =>
    simp only [expectOpen] at h
    split at h
    · next he =>
      cases h
      exact ⟨t, he, rfl⟩
    · cases h

theorem expectClose_eq_ok {ts rest : List Token} (h : expectClose ts = .ok rest) :
    ∃ t, t.kind = .closeParen ∧ ts = t :: rest := by
  cases ts with
  | nil => cases h
  | cons t ts =>
    simp only [expectClose] at h
    split at h
    · next he =>
      cases h
      exact ⟨t, he, rfl⟩
    · cases h

/-- Every procedure of the descent reads what is derived. -/
structure DerivedWithin (levels : Nat) : Prop where
  additive : ∀ ts t rest, Parser.additive levels ts = .ok (t, rest) →
    Derived levels .additive t ts rest
  multiplicative : ∀ ts t rest, Parser.multiplicative levels ts = .ok (t, rest) →
    Derived levels .multiplicative t ts rest
  unary : ∀ ts t rest, Parser.unary levels ts = .ok (t, rest) → Derived levels .unary t ts rest
  power : ∀ ts t rest, Parser.power levels ts = .ok (t, rest) → Derived levels .power t ts rest
  atom : ∀ ts t rest, Parser.atom levels ts = .ok (t, rest) → Derived levels .atom t ts rest
  functionCall : ∀ f name ts t rest, f.kind = .func name →
    Parser.functionCall levels name ts = .ok (t, rest) →
    Derived (levels + 1) .atom t (f :: ts) rest

theorem derivedWithin (levels : Nat) : DerivedWithin levels := by
  induction levels with
  | zero =>
    constructor <;> intros <;>
      simp_all [Parser.additive, Parser.multiplicative, Parser.unary, Parser.power, Parser.atom,
        Parser.functionCall, refuse]
  | succ levels ih =>
    constructor
    case additive =>
      intro ts t rest h
      obtain ⟨⟨left, ts'⟩, hm, hc⟩ := bind_eq_ok_iff.1 h
      obtain ⟨d, rfl, ha, hl, pre, rfl, hp⟩ := ih.multiplicative _ _ _ hm
      obtain ⟨_, rfl, ds, rfl, has, hls, pre', rfl, hps⟩ := derived_terms ih.multiplicative _ _ _ hc
      exact ⟨.additive d ds, rfl, ⟨ha, has⟩, Nat.succ_le_succ (Nat.max_le.2 ⟨hl, hls⟩), pre ++ pre',
        by simp, by simp [Derivation.yield, ← hp, ← hps]⟩
    case multiplicative =>
      intro ts t rest h
      obtain ⟨⟨left, ts'⟩, hm, hc⟩ := bind_eq_ok_iff.1 h
      obtain ⟨d, rfl, ha, hl, pre, rfl, hp⟩ := ih.unary _ _ _ hm
      obtain ⟨_, rfl, ds, rfl, has, hls, pre', rfl, hps⟩ := derived_factors ih.unary _ _ _ hc
      exact ⟨.multiplicative d ds, rfl, ⟨ha, has⟩, Nat.succ_le_succ (Nat.max_le.2 ⟨hl, hls⟩),
        pre ++ pre', by simp, by simp [Derivation.yield, ← hp, ← hps]⟩
    case unary =>
      intro ts t rest h
      cases ts with
      | nil => cases h
      | cons k ts =>
        simp only [Parser.unary] at h
        split at h
        · next op he =>
          obtain ⟨⟨operand, ts'⟩, hu, hc⟩ := bind_eq_ok_iff.1 h
          cases hc
          obtain ⟨d, rfl, ha, hl, pre, rfl, hp⟩ := ih.unary _ _ _ hu
          exact ⟨.signed k.kind op he d, rfl, ha, Nat.succ_le_succ hl, k :: pre, rfl,
            congrArg (k.kind :: ·) hp⟩
        · obtain ⟨d, rfl, ha, hl, hs⟩ := ih.power _ _ _ h
          exact ⟨.unsigned d, rfl, ha, Nat.succ_le_succ hl, hs⟩
    case power =>
      intro ts t rest h
      obtain ⟨⟨base, ts'⟩, hb, hc⟩ := bind_eq_ok_iff.1 h
      obtain ⟨d, rfl, ha, hl, pre, rfl, hp⟩ := ih.atom _ _ _ hb
      cases ts' with
      | nil => cases hc
      | cons k ts' =>
        dsimp only at hc
        split at hc
        · next he =>
          obtain ⟨⟨exponent, ts''⟩, hu, hc⟩ := bind_eq_ok_iff.1 hc
          cases hc
          obtain ⟨u, rfl, hau, hlu, pre', rfl, hpu⟩ := ih.unary _ _ _ hu
          refine ⟨.raised d u, rfl, ⟨ha, hau⟩, Nat.succ_le_succ (Nat.max_le.2 ⟨hl, hlu⟩),
            pre ++ k :: pre', by simp, ?_⟩
          simp [Derivation.yield, ← hp, ← hpu, he]
        · cases hc
          exact ⟨.plain d, rfl, ha, Nat.succ_le_succ hl, pre, rfl, hp⟩
    case atom =>
      intro ts t rest h
      cases ts with
      | nil => cases h
      | cons k ts =>
        simp only [Parser.atom] at h
        split at h
        · next value he =>
          cases h
          exact ⟨.number value, rfl, trivial, Nat.le_add_left _ _, [k], rfl, congrArg (· :: []) he⟩
        · next name he =>
          cases h
          exact ⟨.var name, rfl, trivial, Nat.le_add_left _ _, [k], rfl, congrArg (· :: []) he⟩
        · next name he => exact ih.functionCall k name ts t rest he h
        · next he =>
          obtain ⟨⟨e, ts'⟩, hadd, hc⟩ := bind_eq_ok_iff.1 h
          obtain ⟨ts'', hclose, hc⟩ := bind_eq_ok_iff.1 hc
          cases hc
          obtain ⟨c, hk, rfl⟩ := expectClose_eq_ok hclose
          obtain ⟨d, rfl, ha, hl, pre, rfl, hp⟩ := ih.additive _ _ _ hadd
          refine ⟨.parenthesized d, rfl, ha, Nat.succ_le_succ hl, k :: (pre ++ [c]), by simp, ?_⟩
          simp [Derivation.yield, ← hp, he, hk]
        · cases h
        · cases h
    case functionCall =>
      intro f name ts t rest hf h
      simp only [Parser.functionCall] at h
      split at h
      · cases h
      · next g hg =>
        obtain ⟨ts1, hopen, h⟩ := bind_eq_ok_iff.1 h
        obtain ⟨⟨args, ts2⟩, hargs, h⟩ := bind_eq_ok_iff.1 h
        obtain ⟨ts3, hclose, h⟩ := bind_eq_ok_iff.1 h
        split at h
        · next hacc =>
          cases h
          obtain ⟨o, ho, rfl⟩ := expectOpen_eq_ok hopen
          obtain ⟨c, hk, rfl⟩ := expectClose_eq_ok hclose
          obtain ⟨d, rfl, ha, hl, pre, rfl, hp⟩ := derived_arguments ih.additive _ hargs
          refine ⟨.call name d, rfl, ⟨ha, g, hg, hacc⟩, Nat.add_le_add_right hl 2,
            f :: o :: (pre ++ [c]), by simp, ?_⟩
          simp [Derivation.yield, ← hp, hf, ho, hk]
        · cases h

end Relief.Grammar
