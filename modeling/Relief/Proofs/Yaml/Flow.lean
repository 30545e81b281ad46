import Mathlib
import Relief.Proofs.Yaml.Stream

/-!
Indented JSON as tokens. What comes behind a part of a text is left open: it is read from wherever the
part ends, and so parts are put together.
-/
namespace Relief.Yaml

open Relief.Format Relief.Yaml.Stream

variable {limit taken n : Nat} {bs : List Bracket} {cur : Cursor} {fresh : Bool}
  {gap cs after vcs : List Char} {ts us vts : List Token} {name : String}

/-! ### Parts of a text -/

/-- From the end of a collection on, some tokens are given. -/
def Follows (limit : Nat) (bs : List Bracket) (after : List Char) (us : List Token) : Prop :=
  ∀ cur taken, cur.rest = after → cur.rest.length < limit →
    Gives 1 (inside limit bs cur false [] taken []) us

/-- From a comma or a bracket on, behind the gap or before it, some tokens are given. -/
def Continues (limit : Nat) (bs : List Bracket) (cs : List Char) (us : List Token) : Prop :=
  ∀ cur fresh taken gap, IsGap gap → cur.rest = gap ++ cs → cur.rest.length < limit →
    Gives 1 (inside limit bs cur fresh [] taken []) us

/-- Behind the colon of a key, a text gives some tokens. -/
def Reads (cs : List Char) (ts : List Token) : Prop :=
  ∀ limit bs cur taken gap rest us, bs ≠ [] → Closes gap rest →
    cur.rest = ' ' :: cs ++ (gap ++ rest) → cur.rest.length < limit →
    Continues limit bs rest us → Gives 1 (inside limit bs cur false [] taken []) (ts ++ us)

/-- Where an element of a collection begins, a text gives some tokens. -/
def ReadsItem (cs : List Char) (ts : List Token) : Prop :=
  ∀ limit bs cur taken gap after us, IsGap gap → (bs = [] → gap = []) →
    cur.rest = gap ++ (cs ++ after) → cur.rest.length < limit →
    Follows limit bs after us → Gives 2 (inside limit bs cur true [] taken []) (ts ++ us)

theorem isGap_nil : IsGap [] := List.forall_mem_nil _

theorem isGap_space : IsGap [' '] := by simp [IsGap]

theorem Closes.isGap (h : Closes gap cs) : IsGap gap := by
  obtain rfl | ⟨n, rfl⟩ := h.gap
  · exact isGap_nil
  · refine List.forall_mem_cons.2 ⟨.inr rfl, fun c hc => .inl ?_⟩
    exact List.eq_of_mem_replicate hc

theorem Continues.follows (h : Continues limit bs cs us) (hg : IsGap gap) :
    Follows limit bs (gap ++ cs) us :=
  fun cur taken hc hl => h cur false taken gap hg hc hl

theorem Continues.here (h : Continues limit bs cs us) : Follows limit bs cs us :=
  h.follows isGap_nil

/-- A token that is read after a gap and then given. -/
theorem gives_token {ch : Char} {rest : List Char} {cur' : Cursor} {fresh fresh' : Bool}
    {bs' : List Bracket} {t : Token} (hg : IsGap gap) (hc : cur.rest = gap ++ ch :: rest)
    (hb : bs = [] → gap = []) (hf : IsFirst ch) (hl : cur.rest.length < limit)
    (hr : (inside limit bs (cur.advance gap.length) fresh [] taken []).readToken ch rest =
      .ok (inside limit bs' cur' fresh' [t] taken []))
    (hn : n ≤ 2) (h : Gives n (inside limit bs' cur' fresh' [] (taken + 1) []) us) :
    Gives 1 (inside limit bs cur fresh [] taken []) (t :: us) := by
  have hlim : n ≤ limit := by
    rw [hc, List.length_append, List.length_cons] at hl
    omega
  refine .fetch isOpen_of_empty ?_ (.take isKnown_of_none rfl rfl h hlim)
  rw [fetch_inside hg hc hb hf dropStale_none, hr]

/-! ### Scalars -/

theorem IsBare.isFirst {c : Char} (h : IsBare c) : IsFirst c :=
  ⟨h.ne (by decide), h.ne (by decide), h.ne (by decide), h.isBreak⟩

/-- A number or a word is one token. -/
theorem reads_bare {w : List Char} (h : StartsBare w) (hw : ∀ c ∈ w, IsBare c) :
    Reads w [.scalar true (.text (String.ofList w))] := by
  intro limit bs cur taken gap rest us hb hr hc hl hus
  have hl1 : 1 < limit := by
    rw [hc, List.length_append, List.length_cons] at hl
    obtain ⟨_, _, rfl, -⟩ := id h
    rw [List.length_cons] at hl
    omega
  have hc1 : (cur.advance [' '].length).rest = w ++ (gap ++ rest) :=
    Cursor.rest_advance_append hc
  obtain ⟨c, rest', hcs, ht⟩ := readToken_bare_value [] taken hb h hw hr hc1 hl1
  have hf : IsFirst c := by
    obtain ⟨d, w, rfl, -⟩ := id h
    obtain ⟨rfl, -⟩ := List.cons.inj hcs
    exact (hw d List.mem_cons_self).isFirst
  refine gives_token isGap_space (by rw [hc, ← hcs]; rfl) (fun h => absurd h hb) hf hl ht
    one_le_two ?_
  rw [Cursor.advance_add]
  exact hus _ _ _ [] isGap_nil (Cursor.rest_advance_append (Cursor.rest_advance_append hc1))
    (Cursor.length_advance_lt (Cursor.length_advance_lt (Cursor.length_advance_lt hl _) _) _)

theorem length_le_textChars (s : String) : s.length ≤ (Json.textChars false s).length := by
  have he : ∀ cs : List Char, cs.length ≤ (escaped cs).length := by
    intro cs
    induction cs with
    | nil => exact Nat.le_refl 0
    | cons c cs ih =>
      have hc : 1 ≤ (Json.escapeChar false c).length := by
        obtain ⟨k, hk, -⟩ | ⟨-, hk⟩ | ⟨-, -, -, hk⟩ := escapeChar_cases c <;> rw [hk] <;>
          exact Nat.succ_le_succ (Nat.zero_le _)
      rw [escaped_cons, List.length_append, List.length_cons]
      omega
  have h := he s.toList
  rw [String.length_toList] at h
  rw [Json.textChars, List.length_append, List.length_cons]
  exact Nat.le_trans h (by rw [escaped]; omega)

theorem isFirst_quote : IsFirst '"' := ⟨by decide, by decide, by decide, by decide⟩

/-- A text in quotes is one token. -/
theorem reads_text {s : String} (h : Kept s.toList) :
    Reads (Json.textChars false s) [.scalar false (.text s)] := by
  intro limit bs cur taken gap rest us hb hr hc hl hus
  have hc1 : (cur.advance [' '].length).rest = Json.textChars false s ++ (gap ++ rest) :=
    Cursor.rest_advance_append hc
  have hl1 := Cursor.length_advance_lt hl [' '].length
  have hs : s.length < limit := by
    have h1 := length_le_textChars s
    have h2 := hl1
    rw [hc1, List.length_append] at h2
    omega
  refine gives_token isGap_space hc (fun h => absurd h hb) isFirst_quote hl
    (readToken_quote_value _ (quotedScalar_textChars h hc1 hs)) one_le_two ?_
  exact hus _ _ _ gap hr.isGap (Cursor.rest_advance_append hc1) (Cursor.length_advance_lt hl1 _)

/-! ### Keys -/

/-- A name that is short enough for a key. -/
structure IsName (name : String) : Prop where
  kept : Kept name.toList
  short : (Json.textChars false name).length ≤ maxKeyLength

/-- A token with a colon behind it is a key. -/
theorem gives_colon {k : PendingKey} {t : Token} (hb : bs ≠ []) (hk : k.index = taken)
    (hn : IsNear k cur) (hc : cur.rest = ':' :: ' ' :: cs) (hl : cur.rest.length < limit)
    (h : ∀ cur taken, cur.rest = ' ' :: cs → cur.rest.length < limit →
      Gives 1 (inside limit bs cur false [] taken []) us) :
    Gives 1 (inside limit bs cur fresh [t] taken [(bs.length, k)]) (.key :: t :: .value :: us) := by
  have hlim : 1 ≤ limit := by omega
  have hs : cur.step.rest = ' ' :: cs := congrArg Cursor.rest (Cursor.step_of_cons hc)
  have hlen : cur.step.rest.length < limit := by
    rw [hc, List.length_cons] at hl
    rw [hs]
    omega
  refine .fetch (isOpen_of_key hn hk) ?_
    (.take isKnown_of_none rfl rfl (.take isKnown_of_none rfl rfl (.take isKnown_of_none rfl rfl
      (h cur.step (taken + 3) hs hlen) hlim) (Nat.zero_le _)) (Nat.zero_le _))
  have hd : (inside limit bs cur fresh [t] taken [(bs.length, k)]).dropStale = .ok _ :=
    dropStale_near hn
  exact (fetch_inside isGap_nil hc (fun _ => rfl) ⟨by decide, by decide, by decide, by decide⟩
    hd).trans (readToken_colon_key hb hk cs)

/-- A key in quotes, where it may begin. -/
theorem fetch_name {q : List Token} {pending : List (Nat × PendingKey)} (hk : IsName name)
    (hc : cur.rest = gap ++ (Json.textChars false name ++ cs)) (hg : IsGap gap)
    (hb : bs = [] → gap = []) (hl : cur.rest.length < limit)
    (hd : (inside limit bs (cur.advance gap.length) true q taken pending).dropStale =
      .ok (inside limit bs (cur.advance gap.length) true q taken [])) :
    ∃ cur' k, cur'.rest = cs ∧ cur'.rest.length < limit ∧ IsNear k cur' ∧
      k.index = taken + q.length ∧
      (inside limit bs cur true q taken pending).fetch =
        .ok (inside limit bs cur' false (q ++ [.scalar false (.text name)]) taken
          [(bs.length, k)]) := by
  have hc1 := Cursor.rest_advance_append hc
  have hl1 := Cursor.length_advance_lt hl gap.length
  have hs : name.length < limit := by
    have h1 := length_le_textChars name
    have h2 := hl1
    rw [hc1, List.length_append] at h2
    omega
  have hline := Cursor.line_advance hc1 fun ch hch => ne_break_of_mem_textChars hch
  have hoffset : ((cur.advance gap.length).advance (Json.textChars false name).length).mark.offset =
      (cur.advance gap.length).mark.offset + (Json.textChars false name).length := by
    apply Cursor.offset_advance
    rw [hc1, List.length_append]
    exact Nat.le_add_right _ _
  refine ⟨_, keyAt (taken + q.length) (cur.advance gap.length), Cursor.rest_advance_append hc1,
    Cursor.length_advance_lt hl1 _, ⟨hline.symm, ?_⟩, rfl, ?_⟩
  · rw [hoffset]
    exact Nat.add_le_add_left hk.short _
  · rw [fetch_inside hg hc hb isFirst_quote hd]
    exact readToken_quote_fresh _ (quotedScalar_textChars hk.kept hc1 hs)

/-- A key with its colon, where an entry begins. -/
theorem gives_name (hk : IsName name)
    (hc : cur.rest = gap ++ (Json.textChars false name ++ ':' :: ' ' :: cs)) (hg : IsGap gap)
    (hb : bs ≠ []) (hl : cur.rest.length < limit)
    (h : ∀ cur taken, cur.rest = ' ' :: cs → cur.rest.length < limit →
      Gives 1 (inside limit bs cur false [] taken []) us) :
    Gives 2 (inside limit bs cur true [] taken [])
      (.key :: .scalar false (.text name) :: .value :: us) := by
  have hd : (inside limit bs (cur.advance gap.length) true [] taken []).dropStale = .ok _ :=
    dropStale_none
  obtain ⟨cur', k, hc', hl', hn, hi, hf⟩ := fetch_name hk hc hg (fun h => absurd h hb) hl hd
  exact .fetch isOpen_of_empty hf (gives_colon hb hi hn hc' hl' h)

/-! ### Collections -/

variable {b : Bracket} {inner outer rest : List Char}

theorem isFirst_opening (b : Bracket) : IsFirst (opening b) := by
  cases b <;> exact ⟨by decide, by decide, by decide, by decide⟩

theorem isFirst_closing (b : Bracket) : IsFirst (closing b) := by
  cases b <;> exact ⟨by decide, by decide, by decide, by decide⟩

theorem closes_closing (hg : gap = [] ∨ ∃ n, gap = '\n' :: List.replicate n ' ') (b : Bracket)
    (after : List Char) : Closes gap (closing b :: after) :=
  ⟨hg, _, _, rfl, by cases b <;> decide⟩

theorem closes_comma (rest : List Char) : Closes [] (',' :: rest) :=
  ⟨.inl rfl, _, _, rfl, by decide⟩

/-- The end of a collection. -/
theorem continues_closing (h : Follows limit bs after us) :
    Continues limit (b :: bs) (closing b :: after) (.flowEnd b :: us) := by
  intro cur fresh taken gap hg hc hl
  have hl1 := Cursor.length_advance_lt hl gap.length
  have hs := congrArg Cursor.rest (Cursor.step_of_cons (Cursor.rest_advance_append hc))
  refine gives_token hg hc (fun h => nomatch h) (isFirst_closing b) hl (readToken_closing_none after)
    one_le_two (h _ _ hs ?_)
  exact Cursor.length_advance_lt hl1 1

/-- A comma, behind which another element begins. -/
theorem continues_comma
    (h : ∀ cur taken, cur.rest = rest → cur.rest.length < limit →
      Gives 2 (inside limit (b :: bs) cur true [] taken []) us) :
    Continues limit (b :: bs) (',' :: rest) (.comma :: us) := by
  intro cur fresh taken gap hg hc hl
  have hl1 := Cursor.length_advance_lt hl gap.length
  have hs := congrArg Cursor.rest (Cursor.step_of_cons (Cursor.rest_advance_append hc))
  refine gives_token hg hc (fun h => nomatch h) ⟨by decide, by decide, by decide, by decide⟩ hl
    (readToken_comma_none rest) le_rfl (h _ _ hs ?_)
  exact Cursor.length_advance_lt hl1 1

/-- An opening bracket behind a key. -/
theorem gives_opening (hb : bs ≠ []) (hc : cur.rest = ' ' :: opening b :: rest)
    (hl : cur.rest.length < limit)
    (h : ∀ cur taken, cur.rest = rest → cur.rest.length < limit → ∃ n ≤ 2,
      Gives n (inside limit (b :: bs) cur true [] taken []) us) :
    Gives 1 (inside limit bs cur false [] taken []) (.flowStart b :: us) := by
  have hc1 : (cur.advance [' '].length).rest = opening b :: rest :=
    Cursor.rest_advance_one hc
  have hl1 := Cursor.length_advance_lt hl [' '].length
  have hs := congrArg Cursor.rest (Cursor.step_of_cons hc1)
  obtain ⟨n, hn, h⟩ := h _ (taken + 1) hs (Cursor.length_advance_lt hl1 1)
  exact gives_token isGap_space hc (fun h => absurd h hb) (isFirst_opening b) hl
    (readToken_opening_value rest) hn h

/-- A collection without elements. -/
theorem reads_empty (b : Bracket) : Reads [opening b, closing b] [.flowStart b, .flowEnd b] := by
  intro limit bs cur taken gap rest us hb hr hc hl hus
  refine gives_opening hb hc hl fun cur taken hc hl => ⟨1, one_le_two, ?_⟩
  exact continues_closing (hus.follows hr.isGap) cur true taken [] isGap_nil hc hl

/-- An entry of an object: its name, the text of its value and the tokens of that. -/
structure Entry where
  name : String
  text : List Char
  tokens : List Token

namespace Entry

def chars (e : Entry) : List Char := Json.textChars false e.name ++ ':' :: ' ' :: e.text

def allTokens (e : Entry) : List Token :=
  .key :: .scalar false (.text e.name) :: .value :: e.tokens

structure IsRead (e : Entry) : Prop where
  name : IsName e.name
  text : Reads e.text e.tokens

end Entry

/-- Entries behind the first key. -/
theorem gives_entries {es : List Entry} (hv : Reads vcs vts) (hes : ∀ e ∈ es, e.IsRead)
    (hi : IsGap inner) (ho : outer = [] ∨ ∃ n, outer = '\n' :: List.replicate n ' ')
    (hus : Follows limit bs after us)
    (hc : cur.rest = ' ' :: vcs ++ (es.flatMap (fun e => ',' :: (inner ++ e.chars)) ++
      (outer ++ closing .brace :: after))) (hl : cur.rest.length < limit) :
    Gives 1 (inside limit (.brace :: bs) cur false [] taken [])
      (vts ++ (es.flatMap (fun e => .comma :: e.allTokens) ++ .flowEnd .brace :: us)) := by
  induction es generalizing vcs vts cur taken with
  | nil =>
    exact hv _ _ _ _ outer _ _ (List.cons_ne_nil _ _) (closes_closing ho .brace after) hc hl
      (continues_closing hus)
  | cons e es ih =>
    obtain ⟨he, hes⟩ := List.forall_mem_cons.1 hes
    rw [List.flatMap_cons, List.append_assoc] at hc ⊢
    refine hv _ _ _ _ [] _ _ (List.cons_ne_nil _ _) (closes_comma _) hc hl ?_
    refine continues_comma fun cur taken hc hl => ?_
    have hc : cur.rest = inner ++ (Json.textChars false e.name ++ ':' :: ' ' :: (e.text ++
        (es.flatMap (fun e => ',' :: (inner ++ e.chars)) ++
          (outer ++ closing .brace :: after)))) := by
      rw [hc]
      simp [Entry.chars]
    exact gives_name he.name hc hi (List.cons_ne_nil _ _) hl fun cur taken hc hl =>
      ih he.text hes hc hl

/-- The text of an object with a first entry. -/
def objectChars (inner outer : List Char) (e : Entry) (es : List Entry) : List Char :=
  opening .brace :: (inner ++ (e.chars ++ (es.flatMap (fun e => ',' :: (inner ++ e.chars)) ++
    (outer ++ [closing .brace]))))

def objectTokens (e : Entry) (es : List Entry) : List Token :=
  .flowStart .brace :: (e.allTokens ++
    (es.flatMap (fun e => .comma :: e.allTokens) ++ [.flowEnd .brace]))

theorem objectChars_append (inner outer : List Char) (e : Entry) (es : List Entry)
    (after : List Char) : objectChars inner outer e es ++ after = opening .brace :: (inner ++
      (Json.textChars false e.name ++ ':' :: ' ' :: (e.text ++
        (es.flatMap (fun e => ',' :: (inner ++ e.chars)) ++ (outer ++ closing .brace :: after))))) := by
  simp [objectChars, Entry.chars]

theorem objectTokens_append (e : Entry) (es : List Entry) (us : List Token) :
    objectTokens e es ++ us = .flowStart .brace :: .key :: .scalar false (.text e.name) :: .value ::
      (e.tokens ++ (es.flatMap (fun e => .comma :: e.allTokens) ++ .flowEnd .brace :: us)) := by
  simp [objectTokens, Entry.allTokens]

variable {e : Entry} {es : List Entry}

/-- An object behind a key. -/
theorem reads_object (he : e.IsRead) (hes : ∀ e ∈ es, e.IsRead) (hi : IsGap inner)
    (ho : outer = [] ∨ ∃ n, outer = '\n' :: List.replicate n ' ') :
    Reads (objectChars inner outer e es) (objectTokens e es) := by
  intro limit bs cur taken gap rest us hb hr hc hl hus
  rw [List.cons_append, objectChars_append] at hc
  rw [objectTokens_append]
  refine gives_opening hb hc hl fun cur taken hc hl => ⟨2, le_rfl, ?_⟩
  exact gives_name he.name hc hi (List.cons_ne_nil _ _) hl fun cur taken hc hl =>
    gives_entries he.text hes hi ho (hus.follows hr.isGap) hc hl

/-- An object where an element begins. Until its first line ends, it might be a key itself. -/
theorem readsItem_object (he : e.IsRead) (hes : ∀ e ∈ es, e.IsRead) (hi : IsGap inner)
    (hbreak : '\n' ∈ inner) (ho : outer = [] ∨ ∃ n, outer = '\n' :: List.replicate n ' ') :
    ReadsItem (objectChars inner outer e es) (objectTokens e es) := by
  intro limit bs cur taken gap after us hg hb hc hl hus
  rw [objectChars_append] at hc
  rw [objectTokens_append]
  let cur1 := cur.advance gap.length
  have hc1 : cur1.rest = opening .brace :: _ := Cursor.rest_advance_append hc
  have hl1 : cur1.step.rest.length < limit :=
    Cursor.length_advance_lt (Cursor.length_advance_lt hl gap.length) 1
  have hc2 : cur1.step.rest = inner ++ (Json.textChars false e.name ++ _) :=
    congrArg Cursor.rest (Cursor.step_of_cons hc1)
  have hstep : cur1.step = cur1.advance ['\x7b'].length := rfl
  have hline : cur1.step.mark.line = cur1.mark.line := by
    rw [hstep]
    have hb : ∀ ch ∈ ['\x7b'], ch ≠ '\n' ∧ ch ≠ '\r' := by simp
    exact Cursor.line_advance hc1 hb
  have hoffset : cur1.step.mark.offset = cur1.mark.offset + 1 := by
    rw [hstep]
    exact Cursor.offset_advance (by rw [hc1]; exact Nat.succ_le_succ (Nat.zero_le _))
  have hnear : IsNear (keyAt taken cur1) cur1.step :=
    ⟨hline.symm, by rw [hoffset]; exact Nat.add_le_add_left (by decide) _⟩
  have hfar : (keyAt taken cur1).mark.line ≠ (cur1.step.advance inner.length).mark.line := by
    have h := Cursor.line_lt_advance hc2 hbreak
    rw [hline] at h
    exact Nat.ne_of_lt h
  have hd : (inside limit (.brace :: bs) (cur1.step.advance inner.length) true [.flowStart .brace]
      taken [(bs.length, keyAt taken cur1)]).dropStale = .ok _ := dropStale_far hfar rfl
  have hbs : .brace :: bs = [] → inner = [] := fun h => absurd h (List.cons_ne_nil _ _)
  obtain ⟨cur', k, hc', hl', hn, hk, hf⟩ := fetch_name he.name hc2 hi hbs hl1 hd
  refine .fetch isOpen_of_empty ?_ (.fetch (isOpen_of_key hnear rfl) hf ?_)
  · rw [fetch_inside hg hc hb (isFirst_opening .brace) dropStale_none]
    exact readToken_opening_fresh _
  · have hne : k.index ≠ taken := by
      rw [hk]
      exact Nat.succ_ne_self taken
    refine .take (isKnown_of_key hn hne) rfl rfl ?_ (show 1 ≤ limit by omega)
    exact gives_colon (List.cons_ne_nil _ _) hk hn hc' hl' fun cur taken hc hl =>
      gives_entries he.text hes hi ho hus hc hl

/-- An element of a list: its text and the tokens of that. -/
structure Item where
  text : List Char
  tokens : List Token

def Item.IsRead (i : Item) : Prop := ReadsItem i.text i.tokens

variable {i : Item} {is : List Item}

/-- Elements of a list. -/
theorem gives_items (h : i.IsRead) (hs : ∀ i ∈ is, i.IsRead) (hi : IsGap inner)
    (ho : IsGap outer) (hus : Follows limit bs after us)
    (hc : cur.rest = inner ++ (i.text ++ (is.flatMap (fun i => ',' :: (inner ++ i.text)) ++
      (outer ++ closing .square :: after)))) (hl : cur.rest.length < limit) :
    Gives 2 (inside limit (.square :: bs) cur true [] taken [])
      (i.tokens ++ (is.flatMap (fun i => .comma :: i.tokens) ++ .flowEnd .square :: us)) := by
  induction is generalizing i cur taken with
  | nil =>
    exact h _ _ _ _ inner _ _ hi (fun h => nomatch h) hc hl ((continues_closing hus).follows ho)
  | cons i' is ih =>
    obtain ⟨h', hs⟩ := List.forall_mem_cons.1 hs
    refine h _ _ _ _ inner _ _ hi (fun h => nomatch h) hc hl ?_
    rw [List.flatMap_cons, List.append_assoc, List.flatMap_cons, List.append_assoc]
    refine Continues.here (continues_comma fun cur taken hc hl => ?_)
    exact ih h' hs (by rw [hc]; simp) hl

/-- The text of a list with a first element. -/
def listChars (inner outer : List Char) (i : Item) (is : List Item) : List Char :=
  opening .square :: (inner ++ (i.text ++ (is.flatMap (fun i => ',' :: (inner ++ i.text)) ++
    (outer ++ [closing .square]))))

def listTokens (i : Item) (is : List Item) : List Token :=
  .flowStart .square :: (i.tokens ++
    (is.flatMap (fun i => .comma :: i.tokens) ++ [.flowEnd .square]))

/-- A list behind a key. -/
theorem reads_list (h : i.IsRead) (hs : ∀ i ∈ is, i.IsRead) (hi : IsGap inner) (ho : IsGap outer) :
    Reads (listChars inner outer i is) (listTokens i is) := by
  intro limit bs cur taken gap rest us hb hr hc hl hus
  have hc : cur.rest = ' ' :: opening .square :: (inner ++ (i.text ++
      (is.flatMap (fun i => ',' :: (inner ++ i.text)) ++
        (outer ++ closing .square :: (gap ++ rest))))) := by
    rw [hc]
    simp [listChars]
  have hts : listTokens i is ++ us = .flowStart .square :: (i.tokens ++
      (is.flatMap (fun i => .comma :: i.tokens) ++ .flowEnd .square :: us)) := by
    simp [listTokens]
  rw [hts]
  refine gives_opening hb hc hl fun cur taken hc hl => ⟨2, le_rfl, ?_⟩
  exact gives_items h hs hi ho (hus.follows hr.isGap) hc hl

end Relief.Yaml
