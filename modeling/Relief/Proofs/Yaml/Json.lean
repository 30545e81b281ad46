import Mathlib
import Relief.Proofs.Yaml.Document
import Relief.Proofs.Yaml.Number

/-!
Indented JSON as YAML: texts, numbers, truth values, objects and lists of objects stand for values.
-/
namespace Relief.Yaml

open Relief.Number Relief.Format Relief.Yaml.Stream

/-- Indented, with all characters as they are. -/
def plainStyle : Json.Style := { Json.spaced with asciiOnly := false }

variable {d level : Nat} {cs : List Char} {ts : List Token} {n : Node} {v : Value} {j : Json}
  {name : String}

/-- All characters may stand in a text. -/
def IsWritten (cs : List Char) : Prop := ∀ c ∈ cs, isAllowed c = true

/-- Tokens of a text that make a node with a value. -/
structure Means (d : Nat) (cs : List Char) (ts : List Token) (n : Node) (v : Value) : Prop where
  makes : Makes d ts n
  isTree : IsTree n
  value : n.value = .ok v
  length_le : ts.length ≤ cs.length
  allowed : IsWritten cs

/-- Behind the colon of a key, a text stands for a value. -/
def Stands (d : Nat) (cs : List Char) (v : Value) : Prop :=
  ∃ ts n, Reads cs ts ∧ Means d cs ts n v

/-- Where an element of a collection begins, a text stands for a value. -/
def StandsItem (d : Nat) (cs : List Char) (v : Value) : Prop :=
  ∃ ts n, ReadsItem cs ts ∧ Means d cs ts n v

theorem Means.mono {d' : Nat} (h : Means d cs ts n v) (hd : d ≤ d') : Means d' cs ts n v :=
  { h with makes := h.makes.mono hd }

theorem Stands.mono {d' : Nat} (h : Stands d cs v) (hd : d ≤ d') : Stands d' cs v := by
  obtain ⟨ts, n, hr, hm⟩ := h
  exact ⟨ts, n, hr, hm.mono hd⟩

/-! ### Characters -/

theorem isAllowed_of_visible {c : Char} (h : 0x20 ≤ c.toNat ∧ c.toNat ≤ 0x7E) :
    isAllowed c = true := by
  simp [isAllowed, h]

/-- Texts of ASCII characters are kept. -/
theorem Kept.of_ascii {cs : List Char} (h : ∀ c ∈ cs, c.toNat ≤ 0x7E) : Kept cs := by
  have hs : ∀ s ∈ separators, s ∉ cs := by
    intro s hs hm
    have hle := h s hm
    simp only [separators, List.mem_cons, List.not_mem_nil, or_false] at hs
    obtain rfl | rfl := hs <;> exact absurd hle (by decide)
  refine ⟨fun c hc => ?_, fun hm => absurd (h _ hm) (by decide), fun s hm => ?_, fun s hm => ?_⟩
  · by_cases hlt : c.toNat < 0x20
    · exact .inl hlt
    · exact .inr (isAllowed_of_visible ⟨Nat.not_lt.1 hlt, h c hc⟩)
  · exact ⟨fun hi => hs s hm (hi.subset (by simp)), fun hi => hs s hm (hi.subset (by simp))⟩
  · exact ⟨fun hi => hs s hm (hi.subset (by simp)), fun hi => hs s hm (hi.subset (by simp))⟩

theorem IsName.of_ascii {name : String}
    (h : (name.toList.all fun c => decide (c.toNat ≤ 0x7E)) = true)
    (hl : (Json.textChars false name).length ≤ maxKeyLength) : IsName name :=
  ⟨.of_ascii fun c hc => of_decide_eq_true (List.all_eq_true.1 h c hc), hl⟩

theorem IsBare.isAllowed {c : Char} (h : IsBare c) : isAllowed c = true := by
  apply isAllowed_of_visible
  obtain h | h := h
  · simp only [Char.isAlphanum, Char.isAlpha, Char.isUpper, Char.isLower, Char.isDigit,
      Bool.or_eq_true, Bool.and_eq_true, decide_eq_true_eq, ge_iff_le, UInt32.le_iff_toNat_le] at h
    change (((65 ≤ c.toNat ∧ c.toNat ≤ 90) ∨ (97 ≤ c.toNat ∧ c.toNat ≤ 122)) ∨
      (48 ≤ c.toNat ∧ c.toNat ≤ 57)) at h
    omega
  · simp only [List.mem_cons, List.not_mem_nil, or_false] at h
    obtain rfl | rfl | rfl := h <;> decide

theorem IsWritten.append {cs ds : List Char} (h : IsWritten cs) (h' : IsWritten ds) :
    IsWritten (cs ++ ds) := fun c hc => (List.mem_append.1 hc).elim (h c) (h' c)

theorem IsWritten.cons {c : Char} (hc : isAllowed c = true) (h : IsWritten cs) :
    IsWritten (c :: cs) := List.forall_mem_cons.2 ⟨hc, h⟩

theorem IsWritten.flatMap {α : Type} {f : α → List Char} {l : List α}
    (h : ∀ a ∈ l, IsWritten (f a)) : IsWritten (l.flatMap f) := fun c hc => by
  obtain ⟨a, ha, hca⟩ := List.mem_flatMap.1 hc
  exact h a ha c hca

/-- What a text is written with may stand in a text, if what is written as itself may. -/
theorem isWritten_textChars {s : String} (h : Kept s.toList) :
    IsWritten (Json.textChars false s) := by
  have he : IsWritten (s.toList.flatMap (Json.escapeChar false)) := by
    refine .flatMap fun c hc ch hch => ?_
    obtain ⟨h1, h2 | rfl⟩ := visible_of_mem_escapeChar hch
    · exact isAllowed_of_visible ⟨h1, h2⟩
    · obtain hlt | ha := h.allowed ch hc
      · exact absurd h1 (Nat.not_le.2 hlt)
      · exact ha
  have hq : IsWritten ['"'] := .cons (by decide) (List.forall_mem_nil _)
  exact .append (.cons (by decide) he) hq

theorem isWritten_gap (h : IsGap cs) : IsWritten cs := fun c hc => by
  obtain rfl | rfl := h c hc <;> decide

/-! ### Scalars -/

/-- A number or a word stands for what its kind makes of it. -/
theorem stands_bare (h : StartsBare cs) (hb : ∀ c ∈ cs, IsBare c)
    (hv : scalarValue (Kind.ofPlain .v12 (String.ofList cs)) (.text (String.ofList cs)) = .ok v) :
    Stands 0 cs v := by
  refine ⟨_, _, reads_bare h hb, makes_scalar true _, isTree_scalar _ _, ?_, ?_,
    fun c hc => (hb c hc).isAllowed⟩
  · rw [Node.value]
    exact hv
  · obtain ⟨c, cs, rfl, -⟩ := h
    exact Nat.succ_le_succ (Nat.zero_le _)

theorem stands_float {v : Float} (h : v.isFinite = true) (level : Nat) :
    Stands 0 ((Json.float v).chars plainStyle level) (.float v) := by
  obtain ⟨negative, m, e, hv⟩ := exists_finite h
  obtain ⟨w, d, hp, hw, hm, -⟩ := print_double hv
  have hf := floatOf_print h
  rw [Json.chars, hp, String.toList_ofList]
  rw [hp] at hf
  apply stands_bare (startsBare_sign hw negative) (isBare_of_printed hw negative)
  rw [ofPlain_of_printed hw hm]
  exact hf

theorem stands_nat {n : Nat} (h : (Nat.toDigits 10 n).length ≤ maxDigits) (level : Nat) :
    Stands 0 ((Json.int n).chars plainStyle level) (.int n) := by
  rw [Json.chars, toString_natCast, String.toList_ofList]
  apply stands_bare (startsBare_toDigits n) (isBare_toDigits n)
  rw [ofPlain_toDigits]
  exact intOf_toDigits h

theorem stands_bool (b : Bool) (level : Nat) :
    Stands 0 ((Json.bool b).chars plainStyle level) (.bool b) := by
  have hc : (Json.bool b).chars plainStyle level = boolWord b := by
    rw [Json.chars, boolWord]
  rw [hc]
  apply stands_bare (startsBare_boolWord b) (isBare_boolWord b)
  rw [ofPlain_boolWord]
  exact boolOf_boolWord b

theorem stands_text {s : String} (h : Kept s.toList) (level : Nat) :
    Stands 0 ((Json.text s).chars plainStyle level) (.text s) := by
  refine ⟨_, _, reads_text h, makes_scalar false _, isTree_scalar _ _, ?_, ?_,
    isWritten_textChars h⟩
  · rw [Node.value]
    rfl
  · rw [Json.chars, Json.textChars, List.cons_append]
    exact Nat.succ_le_succ (Nat.zero_le _)

/-! ### Parts between brackets -/

theorem intercalate_cons {α : Type} (sep p : List α) (ps : List (List α)) :
    List.intercalate sep (p :: ps) = p ++ ps.flatMap (sep ++ ·) := by
  induction ps generalizing p with
  | nil => simp
  | cons q ps ih => rw [List.intercalate_cons_cons, ih, List.flatMap_cons, List.append_assoc,
    List.append_assoc]

theorem length_flatMap_le {α β γ : Type} {l : List α} {f : α → List β} {g : α → List γ}
    (h : ∀ a ∈ l, (f a).length ≤ (g a).length) : (l.flatMap f).length ≤ (l.flatMap g).length := by
  rw [List.length_flatMap, List.length_flatMap]
  exact List.sum_le_sum h

section Bracketed

variable {α : Type} {a : α} {as : List α} {chars : α → List Char} {tokens : α → List Token}
  {inner outer : List Char}

/-- Parts in brackets are at least as many characters as tokens, if each of them is. -/
theorem length_bracketed_le (b : Bracket) (inner outer : List Char)
    (h : ∀ x ∈ a :: as, (tokens x).length ≤ (chars x).length) :
    (Token.flowStart b :: (tokens a ++
      (as.flatMap (fun x => Token.comma :: tokens x) ++ [Token.flowEnd b]))).length ≤
    (opening b :: (inner ++ (chars a ++
      (as.flatMap (fun x => ',' :: (inner ++ chars x)) ++ (outer ++ [closing b]))))).length := by
  obtain ⟨ha, has⟩ := List.forall_mem_cons.1 h
  have hrest : (as.flatMap fun x => Token.comma :: tokens x).length ≤
      (as.flatMap fun x => ',' :: (inner ++ chars x)).length := by
    refine length_flatMap_le fun x hx => ?_
    have := has x hx
    rw [List.length_cons, List.length_cons, List.length_append]
    omega
  simp only [List.length_append, List.length_cons, List.length_nil]
  omega

theorem isWritten_bracketed (b : Bracket) (h : ∀ x ∈ a :: as, IsWritten (chars x)) (hi : IsGap inner)
    (ho : IsGap outer) : IsWritten (opening b :: (inner ++ (chars a ++
      (as.flatMap (fun x => ',' :: (inner ++ chars x)) ++ (outer ++ [closing b]))))) := by
  obtain ⟨ha, has⟩ := List.forall_mem_cons.1 h
  have hrest : IsWritten (as.flatMap fun x => ',' :: (inner ++ chars x)) :=
    .flatMap fun x hx => .cons (by decide) ((isWritten_gap hi).append (has x hx))
  have hopening : isAllowed (opening b) = true := by cases b <;> decide
  have hclosing : isAllowed (closing b) = true := by cases b <;> decide
  have hend : IsWritten [closing b] := .cons hclosing (List.forall_mem_nil _)
  exact .cons hopening ((isWritten_gap hi).append
    (ha.append (hrest.append ((isWritten_gap ho).append hend))))

end Bracketed

variable {inner outer : List Char}

theorem isGap_lineBreak (level : Nat) : IsGap (Json.lineBreak plainStyle level) := by
  refine List.forall_mem_cons.2 ⟨.inr rfl, fun c hc => .inl ?_⟩
  exact List.eq_of_mem_replicate hc

theorem bracketed_cons (level : Nat) (o c : Char) (p : List Char) (ps : List (List Char)) :
    Json.bracketed plainStyle level o c (p :: ps) =
      o :: (Json.lineBreak plainStyle (level + 1) ++ (p ++
        (ps.flatMap (fun q => ',' :: (Json.lineBreak plainStyle (level + 1) ++ q)) ++
          (Json.lineBreak plainStyle level ++ [c])))) := by
  rw [Json.bracketed, intercalate_cons]
  simp

/-! ### Objects -/

theorem key_keyNode (name : String) : (keyNode name).key = .ok (.text name) := by
  rw [keyNode, Node.key]
  rfl

theorem isMerge_keyNode (name : String) : (keyNode name).isMerge = false := rfl

theorem isWordNumber_keyNode (name : String) : (keyNode name).isWordNumber = false := rfl

/-- The entries of the mapping that an object makes. -/
def keyed (ps : List (Entry × Node)) : List (Node × Node) := ps.map fun p => (keyNode p.1.name, p.2)

/-- The entries of the map that an object stands for. -/
def named (vs : List (String × Value)) : List (Value × Value) := vs.map fun v => (.text v.1, v.2)

/-- An entry whose name and value are known. -/
def HasValue (p : Entry × Node) (v : String × Value) : Prop :=
  p.1.name = v.1 ∧ p.2.value = .ok v.2

theorem canMerge_keyed (given : Bool) (ps : List (Entry × Node)) :
    Node.canMerge given (keyed ps) = true := by
  induction ps with
  | nil => rfl
  | cons p ps ih => exact ih

theorem merged_keyed (ps : List (Entry × Node)) : Node.merged (keyed ps) = .ok [] := by
  induction ps with
  | nil => rw [keyed, List.map_nil, Node.merged]
  | cons p ps ih =>
    rw [keyed, List.map_cons, Node.merged, isMerge_keyNode, if_neg Bool.false_ne_true]
    exact ih

variable {ps : List (Entry × Node)} {vs : List (String × Value)}

/-- Entries under different names have the values of their nodes. -/
theorem own_keyed (seen : List String) (h : List.Forall₂ HasValue ps vs)
    (hd : (vs.map Prod.fst).Nodup) (hs : ∀ v ∈ vs, v.1 ∉ seen) :
    Node.own true (seen.map .text) (keyed ps) = .ok (named vs) := by
  induction h generalizing seen with
  | nil => rw [keyed, List.map_nil, Node.own, named, List.map_nil]
  | @cons p v ps vs hpv h ih =>
    obtain ⟨hname, hv⟩ := hpv
    rw [List.map_cons, List.nodup_cons] at hd
    obtain ⟨hnot, hd⟩ := hd
    obtain ⟨hsv, hs⟩ := List.forall_mem_cons.1 hs
    have hfresh : (seen.map Value.text).any (Value.sameKey (.text v.1)) = false := by
      rw [List.any_map, List.any_eq_false]
      intro s hs he
      exact hsv (beq_iff_eq.1 he ▸ hs)
    have hrest : Node.own true (.text v.1 :: seen.map .text) (keyed ps) = .ok (named vs) := by
      refine ih (v.1 :: seen) hd fun u hu => ?_
      rw [List.mem_cons, not_or]
      refine ⟨?_, hs u hu⟩
      intro he
      exact hnot (he ▸ List.mem_map_of_mem hu)
    have ho : Node.isOpenEnded (.text v.1) = false := rfl
    have hc : Node.checkKey (.text v.1) = .ok () := rfl
    rw [keyed, List.map_cons, hname, Node.own, isMerge_keyNode, key_keyNode, hv,
      isWordNumber_keyNode, ← keyed]
    dsimp only
    rw [hfresh, ho, hc, Bool.and_false]
    simp only [Bool.false_eq_true, if_false]
    rw [hrest]
    rfl

theorem value_keyed (h : List.Forall₂ HasValue ps vs) (hd : (vs.map Prod.fst).Nodup) :
    (Node.mapping .mapping (keyed ps)).value = .ok (.map (named vs)) := by
  have ho : Node.own true [] (keyed ps) = .ok (named vs) :=
    own_keyed [] h hd fun _ _ => List.not_mem_nil
  rw [Node.value, Node.entryValues, canMerge_keyed, merged_keyed]
  dsimp only
  rw [ho]
  rfl

/-- An entry of an object that is read and makes a node. -/
structure IsPart (d : Nat) (p : Entry × Node) : Prop where
  isRead : p.1.IsRead
  makes : Makes d p.1.tokens p.2
  isTree : IsTree p.2
  length_le : p.1.tokens.length ≤ p.1.text.length
  allowed : IsWritten p.1.text

/-- A member of an object stands for a value under its name. -/
def StandsMember (d level : Nat) (m : String × Json) (v : String × Value) : Prop :=
  m.1 = v.1 ∧ IsName v.1 ∧ Stands d (m.2.chars plainStyle level) v.2

theorem exists_parts {ms : List (String × Json)} (h : List.Forall₂ (StandsMember d level) ms vs) :
    ∃ ps, Json.memberChars plainStyle level ms = ps.map (fun p => p.1.chars) ∧
      (∀ p ∈ ps, IsPart d p) ∧ List.Forall₂ HasValue ps vs := by
  induction h with
  | nil => exact ⟨[], rfl, List.forall_mem_nil _, .nil⟩
  | @cons m v ms vs hmv h ih =>
    obtain ⟨hname, hisName, ts, n, hr, hm⟩ := hmv
    obtain ⟨ps, hc, hps, hvs⟩ := ih
    let e : Entry := ⟨v.1, m.2.chars plainStyle level, ts⟩
    refine ⟨(e, n) :: ps, ?_, List.forall_mem_cons.2 ⟨?_, hps⟩, .cons ⟨rfl, hm.value⟩ hvs⟩
    · obtain ⟨name, j⟩ := m
      obtain rfl : name = v.1 := hname
      rw [Json.memberChars, hc, List.map_cons, Entry.chars, List.append_assoc]
      rfl
    · exact ⟨⟨hisName, hr⟩, hm.makes, hm.isTree, hm.length_le, hm.allowed⟩

theorem IsPart.allTokens_le {p : Entry × Node} (h : IsPart d p) :
    p.1.allTokens.length < p.1.chars.length := by
  have := h.length_le
  rw [Entry.allTokens, Entry.chars, Json.textChars]
  simp only [List.length_cons, List.length_append, List.length_nil]
  omega

theorem IsPart.isWritten_chars {p : Entry × Node} (h : IsPart d p) : IsWritten p.1.chars :=
  (isWritten_textChars h.isRead.name.kept).append (.cons (by decide) (.cons (by decide) h.allowed))

/-- An object stands for a map, wherever it is. -/
theorem object_means {p : Entry × Node} {ps : List (Entry × Node)} (hp : ∀ q ∈ p :: ps, IsPart d q)
    (h : List.Forall₂ HasValue (p :: ps) vs) (hd : (vs.map Prod.fst).Nodup)
    (hi : IsGap inner) (ho : IsGap outer) :
    Means (d + 1) (objectChars inner outer p.1 (ps.map Prod.fst))
      (objectTokens p.1 (ps.map Prod.fst)) (.mapping .mapping (keyed (p :: ps)))
      (.map (named vs)) where
  makes := by
    obtain ⟨hp, hps⟩ := List.forall_mem_cons.1 hp
    exact makes_object hp.makes fun q hq => (hps q hq).makes
  isTree := by
    refine isTree_mapping fun e he => ?_
    obtain ⟨q, hq, rfl⟩ := List.mem_map.1 he
    exact ⟨isTree_scalar _ _, (hp q hq).isTree⟩
  value := value_keyed h hd
  length_le := length_bracketed_le .brace inner outer
    (List.forall_mem_map.2 fun q hq => (hp q hq).allTokens_le.le)
  allowed := by
    have hw : ∀ e ∈ (p :: ps).map Prod.fst, IsWritten e.chars :=
      List.forall_mem_map.2 fun q hq => (hp q hq).isWritten_chars
    exact isWritten_bracketed .brace hw hi ho

theorem chars_object {ms : List (String × Json)} {p : Entry × Node} {ps : List (Entry × Node)}
    (h : Json.memberChars plainStyle (level + 1) ms = (p :: ps).map fun p => p.1.chars) :
    (Json.object ms).chars plainStyle level =
      objectChars (Json.lineBreak plainStyle (level + 1)) (Json.lineBreak plainStyle level) p.1
        (ps.map Prod.fst) := by
  rw [Json.chars, h, List.map_cons, bracketed_cons, objectChars, List.flatMap_map, List.flatMap_map]
  rfl

variable {ms : List (String × Json)}

theorem isOuter_lineBreak (level : Nat) : Json.lineBreak plainStyle level = [] ∨
    ∃ n, Json.lineBreak plainStyle level = '\n' :: List.replicate n ' ' := .inr ⟨_, rfl⟩

/-- An object of members under different names stands for a map, behind a key or as an element. -/
theorem stands_object (h : List.Forall₂ (StandsMember d (level + 1)) ms vs) (hne : vs ≠ [])
    (hd : (vs.map Prod.fst).Nodup) :
    Stands (d + 1) ((Json.object ms).chars plainStyle level) (.map (named vs)) ∧
      StandsItem (d + 1) ((Json.object ms).chars plainStyle level) (.map (named vs)) := by
  obtain ⟨ps, hc, hps, hvs⟩ := exists_parts h
  cases hvs with
  | nil => exact absurd rfl hne
  | @cons p v ps vs hpv hvs =>
    have hm := object_means hps (.cons hpv hvs) hd (isGap_lineBreak (level + 1))
      (isGap_lineBreak level)
    obtain ⟨hp, hps⟩ := List.forall_mem_cons.1 hps
    have hr : ∀ e ∈ ps.map Prod.fst, e.IsRead := fun e he => by
      obtain ⟨q, hq, rfl⟩ := List.mem_map.1 he
      exact (hps q hq).isRead
    rw [chars_object hc]
    constructor
    · exact ⟨_, _, reads_object hp.isRead hr (isGap_lineBreak _) (isOuter_lineBreak _), hm⟩
    · exact ⟨_, _, readsItem_object hp.isRead hr (isGap_lineBreak _) List.mem_cons_self
        (isOuter_lineBreak _), hm⟩

/-! ### Lists -/

/-- An element of a list that is read and makes a node. -/
structure IsElement (d : Nat) (p : Item × Node) : Prop where
  isRead : p.1.IsRead
  makes : Makes d p.1.tokens p.2
  isTree : IsTree p.2
  length_le : p.1.tokens.length ≤ p.1.text.length
  allowed : IsWritten p.1.text

theorem exists_elements {js : List Json} {vs : List Value}
    (h : List.Forall₂ (fun j v => StandsItem d (j.chars plainStyle level) v) js vs) :
    ∃ ps : List (Item × Node), Json.itemChars plainStyle level js = ps.map (fun p => p.1.text) ∧
      (∀ p ∈ ps, IsElement d p) ∧ Node.values (ps.map Prod.snd) = .ok vs := by
  induction h with
  | nil => exact ⟨[], rfl, List.forall_mem_nil _, by rw [List.map_nil, Node.values]⟩
  | @cons j v js vs hjv h ih =>
    obtain ⟨ts, n, hr, hm⟩ := hjv
    obtain ⟨ps, hc, hps, hv⟩ := ih
    refine ⟨(⟨j.chars plainStyle level, ts⟩, n) :: ps, ?_, List.forall_mem_cons.2 ⟨?_, hps⟩, ?_⟩
    · rw [Json.itemChars, hc, List.map_cons]
    · exact ⟨hr, hm.makes, hm.isTree, hm.length_le, hm.allowed⟩
    · rw [List.map_cons, Node.values, hm.value, hv]
      rfl

theorem value_sequence {ns : List Node} {vs : List Value} (h : Node.values ns = .ok vs) :
    (Node.sequence .sequence ns).value = .ok (.list vs) := by
  rw [Node.value, h]
  rfl

/-- A list stands for the list of what its elements stand for. -/
theorem list_means {p : Item × Node} {ps : List (Item × Node)} {vs : List Value}
    (hp : ∀ q ∈ p :: ps, IsElement d q) (h : Node.values ((p :: ps).map Prod.snd) = .ok vs)
    (hi : IsGap inner) (ho : IsGap outer) :
    Means (d + 1) (listChars inner outer p.1 (ps.map Prod.fst)) (listTokens p.1 (ps.map Prod.fst))
      (.sequence .sequence ((p :: ps).map Prod.snd)) (.list vs) where
  makes := by
    obtain ⟨hp, hps⟩ := List.forall_mem_cons.1 hp
    exact makes_list hp.makes fun q hq => (hps q hq).makes
  isTree := by
    refine isTree_sequence fun n hn => ?_
    obtain ⟨q, hq, rfl⟩ := List.mem_map.1 hn
    exact (hp q hq).isTree
  value := value_sequence h
  length_le := length_bracketed_le .square inner outer
    (List.forall_mem_map.2 fun q hq => (hp q hq).length_le)
  allowed := by
    have hw : ∀ i ∈ (p :: ps).map Prod.fst, IsWritten i.text :=
      List.forall_mem_map.2 fun q hq => (hp q hq).allowed
    exact isWritten_bracketed .square hw hi ho

/-- A list of objects stands for a list, behind a key. -/
theorem stands_list {js : List Json} {vs : List Value}
    (h : List.Forall₂ (fun j v => StandsItem d (j.chars plainStyle (level + 1)) v) js vs) :
    Stands (d + 1) ((Json.list js).chars plainStyle level) (.list vs) := by
  obtain ⟨ps, hc, hps, hv⟩ := exists_elements h
  rw [Json.chars, hc]
  cases ps with
  | nil =>
    refine ⟨_, .sequence .sequence [], reads_empty .square, ?_⟩
    exact ⟨makes_empty.mono (Nat.le_add_left 1 d), isTree_sequence (List.forall_mem_nil _),
      value_sequence hv, le_rfl, .cons (by decide) (.cons (by decide) (List.forall_mem_nil _))⟩
  | cons p ps =>
    have hm := list_means hps hv (isGap_lineBreak (level + 1)) (isGap_lineBreak level)
    obtain ⟨hp, hps⟩ := List.forall_mem_cons.1 hps
    have hr : ∀ i ∈ ps.map Prod.fst, i.IsRead := fun i hi => by
      obtain ⟨q, hq, rfl⟩ := List.mem_map.1 hi
      exact (hps q hq).isRead
    have hl : Json.bracketed plainStyle level '[' ']' ((p :: ps).map fun p => p.1.text) =
        listChars (Json.lineBreak plainStyle (level + 1)) (Json.lineBreak plainStyle level) p.1
          (ps.map Prod.fst) := by
      rw [List.map_cons, bracketed_cons, listChars, List.flatMap_map, List.flatMap_map]
      rfl
    rw [hl]
    exact ⟨_, _, reads_list hp.isRead hr (isGap_lineBreak _) (isGap_lineBreak _), hm⟩

/-! ### Whole texts -/

/-- An object on lines of its own is read as the map that it stands for. -/
theorem read_object (h : List.Forall₂ (StandsMember d 1) ms vs) (hne : vs ≠ [])
    (hd : (vs.map Prod.fst).Nodup) (hdepth : d + 1 ≤ maxDepth) :
    read ((Json.object ms).print plainStyle ++ "\n") = .ok (some (.map (named vs))) := by
  obtain ⟨-, ts, n, hr, hm⟩ := stands_object h hne hd
  have htext : ((Json.object ms).print plainStyle ++ "\n").toList =
      (Json.object ms).chars plainStyle 0 ++ ['\n'] := by
    rw [String.toList_append, Json.print, String.toList_ofList]
    rfl
  have hfirst : ∃ rest, (Json.object ms).chars plainStyle 0 = opening .brace :: rest := by
    obtain ⟨ps, hc, -, hvs⟩ := exists_parts h
    cases hvs with
    | nil => exact absurd rfl hne
    | cons => exact ⟨_, chars_object hc⟩
  have hall : IsWritten ((Json.object ms).chars plainStyle 0 ++ ['\n']) :=
    hm.allowed.append (.cons (by decide) (List.forall_mem_nil _))
  have hp := parse_object hr hm.makes hm.isTree hdepth hm.length_le hfirst htext (htext ▸ hall)
  simp only [read, hp, bind, Except.bind, hm.value]
  rfl

/-! ### Texts that are not read -/

variable {c : Char} {js : List Json}

/-- A character that no text may hold is written as itself, unless it is a control character. -/
theorem escapeChar_forbidden (h : 0x20 ≤ c.toNat) (hn : isAllowed c = false) :
    Json.escapeChar false c = [c] := by
  unfold Json.escapeChar
  split
  · exact absurd hn (by decide)
  · exact absurd hn (by decide)
  all_goals try exact absurd h (by decide)
  dsimp only
  rw [if_neg (Nat.not_lt.2 h), Bool.not_false, Bool.or_true, if_pos rfl]

theorem mem_chars_text {s : String} (hc : c ∈ s.toList) (h : 0x20 ≤ c.toNat)
    (hn : isAllowed c = false) (level : Nat) : c ∈ (Json.text s).chars plainStyle level := by
  rw [Json.chars, Json.textChars, List.cons_append]
  refine List.mem_cons_of_mem _ (List.mem_append_left _ (List.mem_flatMap.2 ⟨c, hc, ?_⟩))
  have he : Json.escapeChar plainStyle.asciiOnly c = [c] := escapeChar_forbidden h hn
  rw [he]
  exact List.mem_singleton_self c

theorem mem_bracketed {p : List Char} {parts : List (List Char)} (hp : p ∈ parts) (hc : c ∈ p)
    (level : Nat) (o e : Char) : c ∈ Json.bracketed plainStyle level o e parts := by
  cases parts with
  | nil => cases hp
  | cons q qs =>
    rw [bracketed_cons]
    refine List.mem_cons_of_mem _ (List.mem_append_right _ ?_)
    obtain rfl | hp := List.mem_cons.1 hp
    · exact List.mem_append_left _ hc
    · have hm : c ∈ qs.flatMap fun q => ',' :: (Json.lineBreak plainStyle (level + 1) ++ q) :=
        List.mem_flatMap.2 ⟨p, hp, List.mem_cons_of_mem _ (List.mem_append_right _ hc)⟩
      exact List.mem_append_right _ (List.mem_append_left _ hm)

theorem mem_chars_list (hj : j ∈ js) (hc : c ∈ j.chars plainStyle (level + 1)) :
    c ∈ (Json.list js).chars plainStyle level := by
  have hm : j.chars plainStyle (level + 1) ∈ Json.itemChars plainStyle (level + 1) js := by
    induction js with
    | nil => cases hj
    | cons i js ih =>
      rw [Json.itemChars]
      obtain rfl | hj := List.mem_cons.1 hj
      · exact List.mem_cons_self
      · exact List.mem_cons_of_mem _ (ih hj)
  rw [Json.chars]
  exact mem_bracketed hm hc _ _ _

theorem mem_chars_object (hj : (name, j) ∈ ms) (hc : c ∈ j.chars plainStyle (level + 1)) :
    c ∈ (Json.object ms).chars plainStyle level := by
  have hm : ∃ p ∈ Json.memberChars plainStyle (level + 1) ms, c ∈ p := by
    induction ms with
    | nil => cases hj
    | cons m ms ih =>
      obtain ⟨name', j'⟩ := m
      rw [Json.memberChars]
      obtain h | hj := List.mem_cons.1 hj
      · obtain ⟨rfl, rfl⟩ := Prod.mk.inj h
        exact ⟨_, List.mem_cons_self, List.mem_append_right _ hc⟩
      · obtain ⟨p, hp, hcp⟩ := ih hj
        exact ⟨p, List.mem_cons_of_mem _ hp, hcp⟩
  obtain ⟨p, hp, hcp⟩ := hm
  rw [Json.chars]
  exact mem_bracketed hp hcp _ _ _

/-- A text with a character that none may hold is not read at all. -/
theorem read_forbidden {text : String} {c : Char} (hc : c ∈ text.toList)
    (hn : isAllowed c = false) : read text = .error .malformed := by
  have ha : text.toList.all isAllowed = false := by
    rw [List.all_eq_false]
    exact ⟨c, hc, by rw [hn]; exact Bool.false_ne_true⟩
  rw [read, parse, ha]
  rfl

end Relief.Yaml
