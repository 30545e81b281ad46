import Mathlib
import Relief.Proofs.Yaml.Plain
import Relief.Yaml.Stream

/-!
The tokens of flow collections, one by one: what a stream gives away next, and where it stands behind it.
-/
namespace Relief.Yaml

namespace Stream

/-! ### Giving tokens -/

/-- The next token is known. -/
def IsKnown (s : Stream) : Prop := ∀ n, fill n s = .ok s

/-- More has to be read before the next token is known. -/
def IsOpen (s : Stream) : Prop := ∀ n, fill (n + 1) s = s.fetch.bind (fill n)

/-- The tokens that a stream gives in turn, where so many have to be read before the first one is
known. -/
inductive Gives : Nat → Stream → List Token → Prop where
  | nothing {s : Stream} : Gives 0 s []
  | fetch {n : Nat} {s s' : Stream} {ts : List Token} : s.IsOpen → s.fetch = .ok s' →
    Gives n s' ts → Gives (n + 1) s ts
  | take {n : Nat} {s : Stream} {t : Token} {q ts : List Token} : s.IsKnown → s.version = .v12 →
    s.queue = t :: q → Gives n s.tail ts → n ≤ s.limit → Gives 0 s (t :: ts)

variable {n limit taken : Nat} {s s' : Stream} {t : Token} {q ts : List Token}

/-- A token that a stream gives is the next one, and stays so until it is taken. -/
theorem Gives.head (h : Gives n s (t :: ts)) (hn : n ≤ s.limit) : ∃ s' m,
    s.head = .ok (t, s') ∧ s'.head = .ok (t, s') ∧ s'.version = .v12 ∧ Gives 0 s' (t :: ts) ∧
      Gives m s'.tail ts ∧ m ≤ s'.tail.limit := by
  have hfill : ∃ s' m, (∀ k, n ≤ k → fill k s = .ok s') ∧ s'.IsKnown ∧ s'.version = .v12 ∧
      s'.queue.head? = some t ∧ Gives 0 s' (t :: ts) ∧ Gives m s'.tail ts ∧ m ≤ s'.limit := by
    clear hn
    generalize hts : t :: ts = us at h
    induction h with
    | nothing => cases hts
    | fetch ho hf _ ih =>
      obtain ⟨s', m, hs', h⟩ := ih hts
      refine ⟨s', m, fun k hk => ?_, h⟩
      obtain ⟨k, rfl⟩ := Nat.exists_eq_add_of_le' (Nat.lt_of_lt_of_le (Nat.succ_pos _) hk)
      rw [ho k, hf]
      exact hs' k (Nat.le_of_succ_le_succ hk)
    | take hk hv hq hg hm =>
      cases hts
      exact ⟨_, _, fun k _ => hk k, hk, hv, by rw [hq]; rfl, .take hk hv hq hg hm, hg, hm⟩
  obtain ⟨s', m, hs, hk, hv, hq, h0, hg, hm⟩ := hfill
  have ht : s'.queue.head?.getD .textEnd = t := by rw [hq]; rfl
  refine ⟨s', m, ?_, ?_, hv, h0, hg, ?_⟩
  · rw [Stream.head, hs s.limit hn]
    exact congrArg (fun t => Except.ok (t, s')) ht
  · rw [Stream.head, hk s'.limit]
    exact congrArg (fun t => Except.ok (t, s')) ht
  · rw [tail]
    split <;> exact hm

/-! ### Reading among brackets -/

/-- A stream among brackets and no block collections. -/
def inside (limit : Nat) (bs : List Bracket) (cur : Cursor) (fresh : Bool) (q : List Token)
    (taken : Nat) (pending : List (Nat × PendingKey)) : Stream where
  cursor := cur
  limit := limit
  queue := q
  taken := taken
  ended := false
  indents := []
  fresh := fresh
  brackets := bs
  pending := pending
  version := .v12

/-- What may be a key, as number `index` of the tokens. -/
def keyAt (index : Nat) (cur : Cursor) : PendingKey := ⟨index, false, cur.mark⟩

variable {bs : List Bracket} {b : Bracket} {cur : Cursor} {fresh : Bool} {ch : Char}
  {gap cs w rest : List Char} {pending pending' : List (Nat × PendingKey)} {k : PendingKey} {l : Nat}

theorem isOpen_of_empty : (inside limit bs cur fresh [] taken pending).IsOpen := fun _ => rfl

theorem dropStale_none : (inside limit bs cur fresh q taken []).dropStale =
    .ok (inside limit bs cur fresh q taken []) := rfl

theorem isKnown_of_none : (inside limit bs cur fresh (t :: q) taken []).IsKnown := by
  intro n
  cases n with
  | zero => rfl
  | succ n => rfl

/-- A key is on the same line and not far back. -/
def IsNear (k : PendingKey) (cur : Cursor) : Prop :=
  k.mark.line = cur.mark.line ∧ cur.mark.offset ≤ k.mark.offset + maxKeyLength

theorem isStale_of_isNear (h : IsNear k cur) :
    (inside limit bs cur fresh q taken pending).isStale k = false := by
  rw [isStale, Bool.or_eq_false_iff]
  refine ⟨?_, decide_eq_false (Nat.not_lt.2 h.2)⟩
  rw [bne_eq_false_iff_eq]
  exact h.1

theorem partition_stale (s : Stream) (e : Nat × PendingKey) :
    [e].partition (fun e => s.isStale e.2) = if s.isStale e.2 then ([e], []) else ([], [e]) := by
  cases h : s.isStale e.2 <;> simp [List.partition_eq_filter_filter, h]

theorem dropStale_near (h : IsNear k cur) :
    (inside limit bs cur fresh q taken [(l, k)]).dropStale =
      .ok (inside limit bs cur fresh q taken [(l, k)]) := by
  let s := inside limit bs cur fresh q taken [(l, k)]
  have hs : s.isStale k = false := isStale_of_isNear h
  have hp : s.pending.partition (fun e => s.isStale e.2) = ([], [(l, k)]) :=
    (partition_stale s (l, k)).trans (if_neg (by rw [hs]; exact Bool.false_ne_true))
  change s.dropStale = _
  rw [dropStale, hp]
  rfl

/-- A key on another line is given up. -/
theorem dropStale_far (h : k.mark.line ≠ cur.mark.line) (hk : k.required = false) :
    (inside limit bs cur fresh q taken [(l, k)]).dropStale =
      .ok (inside limit bs cur fresh q taken []) := by
  let s := inside limit bs cur fresh q taken [(l, k)]
  have hs : s.isStale k = true := by
    rw [isStale, Bool.or_eq_true]
    exact .inl (bne_iff_ne.2 h)
  have hp : s.pending.partition (fun e => s.isStale e.2) = ([(l, k)], []) :=
    (partition_stale s (l, k)).trans (if_pos hs)
  change s.dropStale = _
  rw [dropStale, hp]
  simp [s, hk, inside]

/-- While a key is near, more has to be read if it might be the next token. -/
theorem fill_near (h : IsNear k cur) (n : Nat) :
    fill (n + 1) (inside limit bs cur fresh (t :: q) taken [(l, k)]) =
      if k.index = taken then
        (inside limit bs cur fresh (t :: q) taken [(l, k)]).fetch.bind (fill n)
      else .ok (inside limit bs cur fresh (t :: q) taken [(l, k)]) := by
  have hended : ¬ (inside limit bs cur fresh (t :: q) taken [(l, k)]).ended = true :=
    Bool.false_ne_true
  have hqueue : ¬ (inside limit bs cur fresh (t :: q) taken [(l, k)]).queue.isEmpty = true :=
    Bool.false_ne_true
  rw [fill, if_neg hended, if_neg hqueue, dropStale_near h]
  by_cases hk : k.index = taken <;>
    simp [bind, Except.bind, pure, Except.pure, isUncertain, inside, hk]

theorem isOpen_of_key (h : IsNear k cur) (hk : k.index = taken) :
    (inside limit bs cur fresh q taken [(l, k)]).IsOpen := by
  intro n
  cases q with
  | nil => rfl
  | cons t q => rw [fill_near h, if_pos hk]

theorem isKnown_of_key (h : IsNear k cur) (hk : k.index ≠ taken) :
    (inside limit bs cur fresh (t :: q) taken [(l, k)]).IsKnown := by
  intro n
  cases n with
  | zero => rfl
  | succ n => rw [fill_near h, if_neg hk]

/-- Past a gap, the next token is read. Before the first bracket there is no gap. -/
theorem fetch_inside (hg : IsGap gap) (hc : cur.rest = gap ++ ch :: cs) (hb : bs = [] → gap = [])
    (hf : IsFirst ch)
    (hd : (inside limit bs (cur.advance gap.length) fresh q taken pending).dropStale =
      .ok (inside limit bs (cur.advance gap.length) fresh q taken pending')) :
    (inside limit bs cur fresh q taken pending).fetch =
      (inside limit bs (cur.advance gap.length) fresh q taken pending').readToken ch cs := by
  let s := inside limit bs cur fresh q taken pending
  have hskip : skipGap s.inFlow false s.cursor.rest s.cursor.mark s.fresh =
      (cur.advance gap.length, fresh) := by
    change skipGap s.inFlow false cur.rest cur.mark fresh = _
    cases bs with
    | nil =>
      obtain rfl := hb rfl
      rw [hc, List.nil_append, skipGap_first s.inFlow hf]
      have hcur : cur = ⟨ch :: cs, cur.mark⟩ := by rw [← List.nil_append (ch :: cs), ← hc]
      rw [← hcur]
      rfl
    | cons b bs => exact skipGap_append hc hg hf fresh
  have hr := Cursor.rest_advance_append hc
  have hu : (inside limit bs (cur.advance gap.length) fresh q taken pending').unwind
      (inside limit bs (cur.advance gap.length) fresh q taken pending').column =
      inside limit bs (cur.advance gap.length) fresh q taken pending' := by
    rw [unwind]
    split
    · rfl
    · simp [inside, pushAll]
  change fetch s = _
  rw [fetch, hskip]
  change (inside limit bs (cur.advance gap.length) fresh q taken pending).dropStale >>= _ = _
  rw [hd]
  have hrest : (inside limit bs (cur.advance gap.length) fresh q taken pending').cursor.rest =
      ch :: cs := hr
  simp only [bind, Except.bind, hu, hrest]

/-! ### Tokens -/

/-- The character that a bracket opens with. -/
def opening : Bracket → Char
  | .square => '['
  | .brace => '\x7b'

def closing : Bracket → Char
  | .square => ']'
  | .brace => '\x7d'

theorem not_marker_of_ne (ch : Char) (h : ch ≠ '-') (h' : ch ≠ '.') (cs : List Char) :
    isMarker startMarker (ch :: cs) = false ∧ isMarker endMarker (ch :: cs) = false := by
  have hm := isAnyMarker_of_ne h h' cs
  rwa [isAnyMarker, Bool.or_eq_false_iff] at hm

theorem readToken_opening (s : Stream) (b : Bracket) (cs : List Char) :
    s.readToken (opening b) cs = s.openBracket b := by
  cases b with
  | square =>
    obtain ⟨h, h'⟩ := not_marker_of_ne '[' (by decide) (by decide) cs
    simp [readToken, opening, h, h']
  | brace =>
    obtain ⟨h, h'⟩ := not_marker_of_ne '\x7b' (by decide) (by decide) cs
    simp [readToken, opening, h, h']

theorem readToken_closing (s : Stream) (b : Bracket) (cs : List Char) :
    s.readToken (closing b) cs = s.closeBracket b := by
  cases b with
  | square =>
    obtain ⟨h, h'⟩ := not_marker_of_ne ']' (by decide) (by decide) cs
    simp [readToken, closing, h, h']
  | brace =>
    obtain ⟨h, h'⟩ := not_marker_of_ne '\x7d' (by decide) (by decide) cs
    simp [readToken, closing, h, h']

theorem readToken_comma (s : Stream) (cs : List Char) : s.readToken ',' cs = s.readComma := by
  obtain ⟨h, h'⟩ := not_marker_of_ne ',' (by decide) (by decide) cs
  simp [readToken, h, h']

theorem readToken_quote (s : Stream) (cs : List Char) : s.readToken '"' cs = s.readQuoted '"' := by
  obtain ⟨h, h'⟩ := not_marker_of_ne '"' (by decide) (by decide) cs
  simp [readToken, h, h']

theorem readToken_colon (s : Stream) (cs : List Char) :
    s.readToken ':' (' ' :: cs) = s.readValue := by
  obtain ⟨h, h'⟩ := not_marker_of_ne ':' (by decide) (by decide) (' ' :: cs)
  have hg : atGap (' ' :: cs) = true := rfl
  simp [readToken, h, h', hg]

/-- What a bare word begins with: a letter or a digit, or a sign before one. -/
def StartsBare (w : List Char) : Prop :=
  ∃ c cs, w = c :: cs ∧ (c.isAlphanum = true ∨ c = '-' ∧ ∃ d ds, cs = d :: ds ∧ d.isAlphanum = true)

theorem not_mem_indicators {c : Char} (h : c.isAlphanum = true) : c ∉ indicators.toList := by
  intro hc
  have hi : (indicators.toList.all fun d => !d.isAlphanum) = true := by decide
  have h' := List.all_eq_true.1 hi c hc
  rw [h] at h'
  cases h'

/-- A bare word begins a plain text, and nothing else. -/
theorem StartsBare.startsPlain {c : Char} {cs : List Char} (h : StartsBare (c :: cs))
    (rest : List Char) : isAnyMarker (c :: (cs ++ rest)) = false ∧
      (c = '-' → atGap (cs ++ rest) = false) ∧
      startsPlain .v12 true (c :: (cs ++ rest)) = true := by
  obtain ⟨_, _, he, ha⟩ := h
  cases he
  have hbare : ∀ {d : Char}, d.isAlphanum = true → IsBare d := fun hd => .inl hd
  obtain ha | ⟨rfl, d, ds, rfl, hd⟩ := ha
  · have hm : c ≠ '-' ∧ c ≠ '.' := by
      refine ⟨?_, ?_⟩ <;> rintro rfl <;> cases ha
    have hi : c ∉ indicators.toList := not_mem_indicators ha
    refine ⟨isAnyMarker_of_ne hm.1 hm.2 _, fun hc => absurd hc hm.1, ?_⟩
    simp [Yaml.startsPlain, (hbare ha).isBlank, (hbare ha).isBreak, hi]
  · have hne : d ≠ '-' ∧ d ≠ '.' := by
      refine ⟨?_, ?_⟩ <;> rintro rfl <;> cases hd
    have hb := (hbare hd).isBreak
    rw [isBreak, Bool.or_eq_false_iff, Bool.or_eq_false_iff] at hb
    have hg : atGap (d :: ds ++ rest) = false := by
      simp [atGap, (hbare hd).isBlank, hb.1.1]
    have hs : startMarker.toList = ['-', '-', '-'] := by decide
    have he : endMarker.toList = ['.', '.', '.'] := by decide
    have h1 : ('-' == d) = false := beq_false_of_ne (Ne.symm hne.1)
    refine ⟨?_, fun _ => hg, ?_⟩
    · simp [isAnyMarker, isMarker, hs, he, List.isPrefixOf, h1]
    · simp only [Yaml.startsPlain]
      rw [if_neg (by decide), if_pos (by decide)]
      exact congrArg not hg

theorem readToken_bare (s : Stream) {c : Char} {cs : List Char} (h : StartsBare (c :: cs))
    (hw : ∀ d ∈ c :: cs, IsBare d) (rest : List Char) (hf : s.inFlow = true) (hv : s.version = .v12) :
    s.readToken c (cs ++ rest) = s.readPlain := by
  obtain ⟨hm, hg, hp⟩ := h.startsPlain rest
  rw [isAnyMarker, Bool.or_eq_false_iff] at hm
  have hc := hw c List.mem_cons_self
  have h1 := hc.ne (d := '%') (by decide)
  have h2 := hc.ne (d := '[') (by decide)
  have h3 := hc.ne (d := '\x7b') (by decide)
  have h4 := hc.ne (d := ']') (by decide)
  have h5 := hc.ne (d := '\x7d') (by decide)
  have h6 := hc.ne (d := ',') (by decide)
  have h7 := hc.ne (d := '*') (by decide)
  have h8 := hc.ne (d := '&') (by decide)
  have h9 := hc.ne (d := '!') (by decide)
  have h10 := hc.ne (d := '\'') (by decide)
  have h11 := hc.ne (d := '"') (by decide)
  have h12 := hc.ne (d := '?') (by decide)
  have h13 := hc.ne (d := ':') (by decide)
  unfold readToken
  simp only [h1, h12, h13, hm, hf, hv, hp, beq_iff_eq, Bool.and_eq_true, Bool.and_false,
    Bool.false_eq_true, if_false, if_true, false_and, and_false, Bool.not_true]
  rw [if_neg fun hd => absurd (hg hd.1) (by rw [hd.2]; decide)]

/-! ### What tokens do to a stream -/

theorem noteKey_fresh : (inside limit bs cur true q taken []).noteKey =
    .ok (inside limit bs cur true q taken [(bs.length, keyAt (taken + q.length) cur)]) := by
  cases bs with
  | nil => rfl
  | cons b bs => rfl

theorem readToken_opening_fresh (cs : List Char) :
    (inside limit bs cur true q taken []).readToken (opening b) cs =
      .ok (inside limit (b :: bs) cur.step true (q ++ [.flowStart b]) taken
        [(bs.length, keyAt (taken + q.length) cur)]) := by
  rw [readToken_opening, openBracket, noteKey_fresh]
  rfl

theorem readToken_opening_value (cs : List Char) :
    (inside limit bs cur false q taken []).readToken (opening b) cs =
      .ok (inside limit (b :: bs) cur.step true (q ++ [.flowStart b]) taken []) := by
  rw [readToken_opening]
  rfl

theorem readToken_closing_none (cs : List Char) :
    (inside limit (b :: bs) cur fresh q taken []).readToken (closing b) cs =
      .ok (inside limit bs cur.step false (q ++ [.flowEnd b]) taken []) := by
  rw [readToken_closing]
  rfl

theorem readToken_comma_none (cs : List Char) :
    (inside limit bs cur fresh q taken []).readToken ',' cs =
      .ok (inside limit bs cur.step true (q ++ [.comma]) taken []) := by
  rw [readToken_comma]
  rfl

/-- A text in quotes, where a key may begin. -/
theorem readToken_quote_fresh {text : Wording} {cur' : Cursor} (cs : List Char)
    (h : quotedScalar '"' limit cur = .ok (text, cur')) :
    (inside limit bs cur true q taken []).readToken '"' cs =
      .ok (inside limit bs cur' false (q ++ [.scalar false text]) taken
        [(bs.length, keyAt (taken + q.length) cur)]) := by
  rw [readToken_quote, readQuoted, readWord, noteKey_fresh]
  change (quotedScalar '"' limit cur).map _ >>= _ = _
  rw [h]
  rfl

theorem readToken_quote_value {text : Wording} {cur' : Cursor} (cs : List Char)
    (h : quotedScalar '"' limit cur = .ok (text, cur')) :
    (inside limit bs cur false q taken []).readToken '"' cs =
      .ok (inside limit bs cur' false (q ++ [.scalar false text]) taken []) := by
  rw [readToken_quote, readQuoted, readWord]
  change (quotedScalar '"' limit cur).map _ >>= _ = _
  rw [h]
  rfl

/-- A colon shows that the token before it is a key. -/
theorem readToken_colon_key (hb : bs ≠ []) (hk : k.index = taken) (cs : List Char) :
    (inside limit bs cur fresh [t] taken [(bs.length, k)]).readToken ':' (' ' :: cs) =
      .ok (inside limit bs cur.step false [.key, t, .value] taken []) := by
  obtain ⟨b, bs, rfl⟩ := List.exists_cons_of_ne_nil hb
  rw [readToken_colon, readValue]
  have hp : (inside limit (b :: bs) cur fresh [t] taken [((b :: bs).length, k)]).pendingKey? =
      some k := by
    rw [pendingKey?]
    change [((b :: bs).length, k)].lookup (b :: bs).length = _
    simp
  rw [hp]
  simp [inside, forgetKey, putAt, inFlow, hk, push, bind, Except.bind, pure, Except.pure]

theorem readToken_bare_value (q : List Token) (taken : Nat) (hb : bs ≠ []) (h : StartsBare w)
    (hw : ∀ c ∈ w, IsBare c) (hr : Closes gap cs) (hc : cur.rest = w ++ (gap ++ cs)) (hl : 1 < limit) :
    ∃ c rest, w ++ (gap ++ cs) = c :: rest ∧
      (inside limit bs cur false q taken []).readToken c rest =
        .ok (inside limit bs (cur.advance (w.length + gap.length)) (decide (gap ≠ []))
          (q ++ [.scalar true (.text (String.ofList w))]) taken []) := by
  obtain ⟨b, bs, rfl⟩ := List.exists_cons_of_ne_nil hb
  obtain ⟨c, w, rfl, -⟩ := id h
  refine ⟨c, w ++ (gap ++ cs), rfl, ?_⟩
  let s := inside limit (b :: bs) cur false q taken []
  have hn : s.noteKey = .ok s := rfl
  have hp : plainScalar s.version s.inFlow s.indent s.limit s.cursor = _ :=
    plainScalar_bare hw (List.cons_ne_nil c w) hr hc hl (-1)
  change s.readToken c (w ++ (gap ++ cs)) = _
  rw [readToken_bare s h hw _ rfl rfl, readPlain, hn]
  simp only [bind, Except.bind, hp]
  rfl

end Stream

end Relief.Yaml
