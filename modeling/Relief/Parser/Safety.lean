import Relief.Parser.Descent

/-!
Reading tokens never goes past the last one, and every function that is called is known: what the
scanner makes is either an expression or not one.
-/
namespace Relief.Parser

open Relief.Token

/-- What the scanner makes: the last token is the end of the text, and functions are known. -/
structure Proper (ts : List Token) : Prop where
  ended : ∃ t ∈ ts.getLast?, t.kind = .finish
  known : ∀ t ∈ ts, ∀ name, t.kind = .func name → (Expr.function? name).isSome = true

theorem Proper.ne_nil {ts : List Token} (h : Proper ts) : ts ≠ [] := by
  rintro rfl
  obtain ⟨t, ht, -⟩ := h.ended
  simp at ht

theorem Proper.tail {t : Token} {ts : List Token} (h : Proper (t :: ts)) (ht : t.kind ≠ .finish) :
    Proper ts := by
  refine ⟨?_, fun u hu => h.known u (List.mem_cons_of_mem t hu)⟩
  obtain ⟨u, hu, hf⟩ := h.ended
  cases ts with
  | nil =>
    obtain rfl : t = u := by simpa using hu
    exact absurd hf ht
  | cons v ts => exact ⟨u, by simpa using hu, hf⟩

/-- An outcome that is no fault: either a refusal, or a rest that is proper and no longer. -/
def Safe {α : Type} (ts : List Token) : Except Fault (α × List Token) → Prop
  | .ok (_, rest) => Proper rest ∧ rest.length ≤ ts.length
  | .error e => ∃ g, e = .grammar g

section Outcomes

variable {α β : Type} {ts : List Token}

theorem safe_refuse (g : GrammarError) : Safe ts (refuse g : Except Fault (α × List Token)) :=
  ⟨g, rfl⟩

theorem Safe.cons {r : Except Fault (α × List Token)} (t : Token) (h : Safe ts r) :
    Safe (t :: ts) r := by
  cases r with
  | error e => exact h
  | ok r => exact ⟨h.1, Nat.le_succ_of_le h.2⟩

theorem Safe.bind {r : Except Fault (α × List Token)}
    {f : α × List Token → Except Fault (β × List Token)} (h : Safe ts r)
    (hf : ∀ a rest, Proper rest → rest.length ≤ ts.length → Safe rest (f (a, rest))) :
    Safe ts (r >>= f) := by
  cases r with
  | error e => exact h
  | ok r =>
    have hs := hf r.1 r.2 h.1 h.2
    change Safe ts (f r)
    cases hr : f r with
    | error e =>
      rw [hr] at hs
      exact hs
    | ok s =>
      rw [hr] at hs
      exact ⟨hs.1, Nat.le_trans hs.2 h.2⟩

/-- A procedure that is safe on whatever is proper. -/
def SafeOn (p : Parse α) : Prop :=
  ∀ ts, Proper ts → Safe ts (p ts)

end Outcomes

theorem additiveOp?_ne_finish {k : Kind} {op : String} (h : additiveOp? k = some op) :
    k ≠ .finish := by
  rintro rfl
  cases h

theorem multiplicativeOp?_ne_finish {k : Kind} {op : String} (h : multiplicativeOp? k = some op) :
    k ≠ .finish := by
  rintro rfl
  cases h

section Repetitions

variable {operand : Parse Expr} (h : SafeOn operand)

include h

theorem safe_chain {op? : Kind → Option String} (hop : ∀ k op, op? k = some op → k ≠ .finish)
    (limit : Nat) (left : Expr) (ts : List Token) (hts : Proper ts) (hl : ts.length ≤ limit) :
    Safe ts (chain op? operand limit left ts) := by
  induction limit generalizing left ts with
  | zero => exact absurd (List.length_eq_zero_iff.1 (Nat.le_zero.1 hl)) hts.ne_nil
  | succ limit ih =>
    cases ts with
    | nil => exact absurd rfl hts.ne_nil
    | cons t ts =>
      simp only [chain]
      split
      · exact ⟨hts, Nat.le_refl _⟩
      · next op he =>
        have ht := hts.tail (hop _ _ he)
        refine ((h ts ht).bind fun right rest hr hle => ?_).cons t
        exact ih _ rest hr (Nat.le_trans hle (Nat.le_of_succ_le_succ hl))

theorem safe_commaList (limit : Nat) (ts : List Token) (hts : Proper ts) (hl : ts.length ≤ limit) :
    Safe ts (commaList operand limit ts) := by
  induction limit generalizing ts with
  | zero => exact absurd (List.length_eq_zero_iff.1 (Nat.le_zero.1 hl)) hts.ne_nil
  | succ limit ih =>
    cases ts with
    | nil => exact absurd rfl hts.ne_nil
    | cons t ts =>
      simp only [commaList]
      split
      · next he =>
        have ht := hts.tail (by rw [he]; exact nofun)
        refine ((h ts ht).bind fun arg rest hr hle => ?_).cons t
        refine (ih rest hr (Nat.le_trans hle (Nat.le_of_succ_le_succ hl))).bind ?_
        exact fun args rest hr _ => ⟨hr, Nat.le_refl _⟩
      · exact ⟨hts, Nat.le_refl _⟩

theorem safe_arguments : SafeOn (arguments operand) := by
  intro ts hts
  cases ts with
  | nil => exact absurd rfl hts.ne_nil
  | cons t ts =>
    simp only [arguments]
    split
    · exact ⟨hts, Nat.le_refl _⟩
    · refine (h _ hts).bind fun arg rest hr _ => ?_
      refine (safe_commaList h _ rest hr (Nat.le_refl _)).bind ?_
      exact fun args rest hr _ => ⟨hr, Nat.le_refl _⟩

end Repetitions

theorem safe_expectOpen {β : Type} {ts : List Token} (hts : Proper ts)
    {f : List Token → Except Fault (β × List Token)}
    (hf : ∀ rest, Proper rest → rest.length ≤ ts.length → Safe rest (f rest)) :
    Safe ts (expectOpen ts >>= f) := by
  cases ts with
  | nil => exact absurd rfl hts.ne_nil
  | cons t ts =>
    simp only [expectOpen]
    split
    · next he =>
      exact (hf ts (hts.tail (by rw [he]; exact nofun)) (Nat.le_succ _)).cons t
    · exact safe_refuse _

theorem safe_expectClose {β : Type} {ts : List Token} (hts : Proper ts)
    {f : List Token → Except Fault (β × List Token)}
    (hf : ∀ rest, Proper rest → rest.length ≤ ts.length → Safe rest (f rest)) :
    Safe ts (expectClose ts >>= f) := by
  cases ts with
  | nil => exact absurd rfl hts.ne_nil
  | cons t ts =>
    simp only [expectClose]
    split
    · next he =>
      exact (hf ts (hts.tail (by rw [he]; exact nofun)) (Nat.le_succ _)).cons t
    · exact safe_refuse _

/-- Every procedure of the descent is safe, by induction on the levels. -/
structure SafeWithin (levels : Nat) : Prop where
  additive : SafeOn (additive levels)
  multiplicative : SafeOn (multiplicative levels)
  unary : SafeOn (unary levels)
  power : SafeOn (power levels)
  atom : SafeOn (atom levels)
  functionCall : ∀ name, (Expr.function? name).isSome = true → SafeOn (functionCall levels name)

theorem safeWithin (levels : Nat) : SafeWithin levels := by
  induction levels with
  | zero =>
    constructor <;> intros <;> intro ts _ <;>
      simp only [Parser.additive, Parser.multiplicative, Parser.unary, Parser.power, Parser.atom,
        Parser.functionCall] <;> exact safe_refuse _
  | succ levels ih =>
    constructor
    case additive =>
      intro ts hts
      refine (ih.multiplicative ts hts).bind fun left rest hr _ => ?_
      exact safe_chain ih.multiplicative (fun _ _ => additiveOp?_ne_finish) _ _ _ hr (Nat.le_refl _)
    case multiplicative =>
      intro ts hts
      refine (ih.unary ts hts).bind fun left rest hr _ => ?_
      exact safe_chain ih.unary (fun _ _ => multiplicativeOp?_ne_finish) _ _ _ hr (Nat.le_refl _)
    case unary =>
      intro ts hts
      cases ts with
      | nil => exact absurd rfl hts.ne_nil
      | cons t ts =>
        simp only [Parser.unary]
        split
        · next op he =>
          refine ((ih.unary ts (hts.tail (additiveOp?_ne_finish he))).bind ?_).cons t
          exact fun operand rest hr _ => ⟨hr, Nat.le_refl _⟩
        · exact ih.power _ hts
    case power =>
      intro ts hts
      refine (ih.atom ts hts).bind fun base rest hr _ => ?_
      cases rest with
      | nil => exact absurd rfl hr.ne_nil
      | cons t rest =>
        dsimp only
        split
        · next he =>
          refine ((ih.unary rest (hr.tail (by rw [he]; exact nofun))).bind ?_).cons t
          exact fun exponent rest hr _ => ⟨hr, Nat.le_refl _⟩
        · exact ⟨hr, Nat.le_refl _⟩
    case atom =>
      intro ts hts
      cases ts with
      | nil => exact absurd rfl hts.ne_nil
      | cons t ts =>
        simp only [Parser.atom]
        split
        · next he => exact ⟨hts.tail (by rw [he]; exact nofun), Nat.le_succ _⟩
        · next he => exact ⟨hts.tail (by rw [he]; exact nofun), Nat.le_succ _⟩
        · next name he =>
          have hn := hts.known t List.mem_cons_self name he
          exact (ih.functionCall name hn ts (hts.tail (by rw [he]; exact nofun))).cons t
        · next he =>
          refine ((ih.additive ts (hts.tail (by rw [he]; exact nofun))).bind ?_).cons t
          intro e rest hr _
          exact safe_expectClose hr fun rest hr _ => ⟨hr, Nat.le_refl _⟩
        · exact safe_refuse _
        · exact safe_refuse _
    case functionCall =>
      intro name hn ts hts
      simp only [Parser.functionCall]
      split
      · next he => simp [he] at hn
      · refine safe_expectOpen hts fun rest hr _ => ?_
        refine (safe_arguments ih.additive rest hr).bind fun args rest hr _ => ?_
        refine safe_expectClose hr fun rest hr _ => ?_
        split
        · exact ⟨hr, Nat.le_refl _⟩
        · exact safe_refuse _

theorem expression_safe {levels : Nat} {ts : List Token} (hts : Proper ts) {e : Fault}
    (h : expression levels ts = .error e) : ∃ g, e = .grammar g := by
  have hs := (safeWithin levels).additive ts hts
  simp only [expression] at h
  cases hr : additive levels ts with
  | error f =>
    rw [hr] at hs h
    cases h
    exact hs
  | ok r =>
    obtain ⟨tree, rest⟩ := r
    rw [hr] at hs h
    cases rest with
    | nil => exact absurd rfl hs.1.ne_nil
    | cons t rest =>
      simp only [bind, Except.bind] at h
      split at h
      · cases h
      · cases h
        exact ⟨_, rfl⟩

section Scanning

theorem ofQualified_known {name found : String} (h : ofQualified name = .token (.func found)) :
    (Expr.function? found).isSome = true := by
  obtain ⟨v, -, hk⟩ | ⟨hf, hk⟩ := ofQualified_eq_token h
  · cases hk
  · cases hk
    exact hf

theorem symbol?_ne_func {cs : List Char} {k : Kind} {n : Nat} (h : symbol? cs = some (k, n))
    (name : String) : k ≠ .func name := by
  rintro rfl
  unfold symbol? at h
  split at h <;> cases h

theorem lexeme?_known {cs : List Char} {name : String} {n : Nat}
    (h : lexeme? cs = some (.token (.func name), n)) : (Expr.function? name).isSome = true := by
  simp only [lexeme?] at h
  split at h
  · cases h
  · split at h
    · simp only [Option.some.injEq, Prod.mk.injEq] at h
      exact ofQualified_known h.1
    · split at h
      · simp only [Option.some.injEq, Prod.mk.injEq] at h
        cases (ofName_eq_token h.1).2
      · split at h
        · next hs =>
          cases h
          exact absurd rfl (symbol?_ne_func hs name)
        · split at h <;> cases h

theorem scanFrom_proper {position : Nat} {cs : List Char} {ts : List Token}
    (h : scanFrom position cs = .ok ts) : Proper ts := by
  fun_induction scanFrom position cs generalizing ts with
  | case1 position =>
    cases h
    exact ⟨⟨_, rfl, rfl⟩, fun t ht name hn => by simp_all⟩
  | case2 | case3 => cases h
  | case4 position c cs n hl ih => exact ih h
  | case5 position c cs kind n hl ih =>
    cases hs : scanFrom (position + n) (cs.drop (n - 1)) with
    | error e => simp [hs, bind, Except.bind] at h
    | ok rest =>
      have hr := ih hs
      simp only [hs, bind, Except.bind, pure, Except.pure, Except.ok.injEq] at h
      subst h
      obtain ⟨t, ht, hf⟩ := hr.ended
      refine ⟨⟨t, ?_, hf⟩, ?_⟩
      · cases rest with
        | nil => simp at ht
        | cons u rest => simpa using ht
      · intro u hu name hn
        obtain rfl | hu := List.mem_cons.1 hu
        · obtain rfl : kind = .func name := hn
          exact lexeme?_known hl
        · exact hr.known u hu name hn

theorem parseWithin_safe {levels : Nat} {text : String} {e : Fault}
    (h : parseWithin levels text = .error e) : ∃ g, e = .grammar g := by
  simp only [parseWithin, scan] at h
  cases hs : scanFrom 0 text.toList with
  | error g =>
    rw [hs] at h
    cases h
    exact ⟨g, rfl⟩
  | ok ts =>
    rw [hs] at h
    exact expression_safe (scanFrom_proper hs) h

end Scanning

end Relief.Parser
