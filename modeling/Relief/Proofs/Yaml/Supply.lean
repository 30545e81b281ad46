import Mathlib
import Relief.Proofs.Yaml.Reach
import Relief.Yaml.Parser

/-!
What a stream can still give. A token that begins a collection, an item or a key takes a character of the
text, and one character makes two of them at most, so the tokens to come bound how deep collections stand.
-/
namespace Relief.Yaml

variable {text cs ds : List Char} {ch : Char} {ts us : List Token} {t : Token} {d n : Nat}

/-- Whether a token begins a collection, an item or a key. -/
def Token.opens : Token → Bool
  | .blockSequence | .blockMapping | .flowStart _ | .entry | .key => true
  | _ => false

/-- Directives and tags take the characters that they begin with. -/
def Token.Fits (text : List Char) : Token → Prop
  | .directive _ => '%' ∈ text
  | .tag .. => '!' ∈ text
  | _ => True

/-- What is left of a text: characters to read, and tokens to take. Within so many collections, no more
can begin than may stand in each other, unless the text has the characters for them. -/
structure Left (text : List Char) (depth : Nat) (cs : List Char) (ts : List Token) : Prop where
  chars : cs <:+ text
  tokens : ∀ t ∈ ts, t.Fits text
  room : text.countP opensCollection ≤ 240 →
    depth + (2 * cs.countP opensCollection + ts.countP Token.opens) ≤ maxDepth

namespace Left

theorem mono {d' : Nat} (h : Left text d' cs ts) (hd : d ≤ d') : Left text d cs ts where
  chars := h.chars
  tokens := h.tokens
  room hc := Nat.le_trans (Nat.add_le_add_right hd _) (h.room hc)

theorem suffix (h : Left text d cs ts) (hs : ds <:+ cs) : Left text d ds ts where
  chars := hs.trans h.chars
  tokens := h.tokens
  room hc := by
    have hcount := hs.sublist.countP_le (p := opensCollection)
    have hroom := h.room hc
    omega

/-- Beyond a character that begins collections, there is room for two more. -/
theorem next (h : Left text d (ch :: cs) ts) (ho : opensCollection ch = true) :
    Left text (d + 2) cs ts where
  chars := (List.suffix_cons ch cs).trans h.chars
  tokens := h.tokens
  room hc := by
    have hroom := h.room hc
    rw [List.countP_cons_of_pos ho] at hroom
    omega

theorem perm (h : Left text d cs ts) (hp : us.Perm ts) : Left text d cs us where
  chars := h.chars
  tokens t ht := h.tokens t (hp.mem_iff.1 ht)
  room := hp.countP_eq Token.opens ▸ h.room

theorem append (h : Left text (d + n) cs ts) (hu : ∀ t ∈ us, t.Fits text)
    (hn : us.countP Token.opens ≤ n) : Left text d cs (ts ++ us) where
  chars := h.chars
  tokens := by
    intro t ht
    cases List.mem_append.1 ht with
    | inl ht => exact h.tokens t ht
    | inr ht => exact hu t ht
  room hc := by
    have hroom := h.room hc
    rw [List.countP_append]
    omega

/-- A token that begins nothing takes no room. -/
theorem push (h : Left text d cs ts) (hf : t.Fits text) (ho : t.opens = false) :
    Left text d cs (ts ++ [t]) :=
  append (n := 0) h (List.forall_mem_singleton.2 hf) (by simp [ho])

theorem pushOpening (h : Left text (d + 1) cs ts) (hf : t.Fits text) : Left text d cs (ts ++ [t]) :=
  h.append (List.forall_mem_singleton.2 hf) List.countP_le_length

/-- A token that has been taken leaves more room if it began something. -/
theorem take (h : Left text d cs (t :: ts)) : Left text (d + t.opens.toNat) cs ts where
  chars := h.chars
  tokens u hu := h.tokens u (List.mem_cons_of_mem t hu)
  room hc := by
    have hroom := h.room hc
    rw [List.countP_cons] at hroom
    cases ho : t.opens with
    | false =>
      rw [ho] at hroom
      exact hroom
    | true =>
      rw [ho, if_pos rfl] at hroom
      change d + 1 + _ ≤ _
      omega

/-- Collections that stand too deep need many characters that begin them. -/
theorem tooDeep (h : Left text d cs ts) (hd : maxDepth < d) : Origin text .tooDeep := by
  apply Origin.tooDeep
  by_contra hc
  have hroom := h.room (Nat.le_of_not_lt hc)
  omega

end Left

theorem Origin.suffix {c : Cause} (h : Origin cs c) (hs : cs <:+ text) : Origin text c := by
  cases h with
  | malformed => exact .malformed
  | version hp => exact .version (hs.subset hp)
  | number hp hd => exact .number (hs.subset hp) (Nat.lt_of_lt_of_le hd hs.sublist.countP_le)
  | codePoint hb hc => exact .codePoint (hs.subset hb) hc
  | tooDeep hd => exact .tooDeep (Nat.lt_of_lt_of_le hd hs.sublist.countP_le)

/-- What ends well on an end of a text does so on the text. -/
theorem Ends.suffix {α : Type} {x : Except Cause α} {Q : α → Prop} (h : Ends (Origin cs) x Q)
    (hs : cs <:+ text) : Ends (Origin text) x Q := by
  cases x with
  | ok a => exact h
  | error c => exact Origin.suffix h hs

namespace Stream

variable {s s' : Stream}

/-- What a stream holds is left of a text. -/
def Fits (text : List Char) (depth : Nat) (s : Stream) : Prop :=
  Left text depth s.cursor.rest s.queue

/-- A step that neither reads nor gives anything. -/
def Keeps (s s' : Stream) : Prop := s'.cursor = s.cursor ∧ s'.queue = s.queue

theorem Keeps.fits (h : Keeps s s') (hf : s.Fits text d) : s'.Fits text d := by
  rw [Fits, h.1, h.2]
  exact hf

/-! ### Keys and blocks -/

theorem dropStale_keeps (s : Stream) : Ends (Origin text) s.dropStale (Keeps s) := by
  rw [dropStale]
  dsimp only
  split
  · exact .malformed
  · exact ⟨rfl, rfl⟩

theorem dropKey_keeps (s : Stream) : Ends (Origin text) s.dropKey (Keeps s) := by
  rw [dropKey]
  split
  · exact .malformed
  · exact ⟨rfl, rfl⟩

theorem noteKey_keeps (s : Stream) : Ends (Origin text) s.noteKey (Keeps s) := by
  rw [noteKey]
  split
  · exact (dropKey_keeps s).bind fun _ h => h
  · exact ⟨rfl, rfl⟩

theorem unwind_cursor (s : Stream) (column : Int) : (s.unwind column).cursor = s.cursor := by
  rw [unwind]
  split
  · rfl
  · rfl

theorem unwind_left (h : Left text d cs s.queue) (column : Int) :
    Left text d cs (s.unwind column).queue := by
  rw [unwind]
  split
  · exact h
  · refine h.append (n := 0) (fun t ht => ?_) ?_
    · rw [List.eq_of_mem_replicate ht]
      trivial
    · rw [Nat.le_zero, List.countP_eq_zero]
      intro t ht
      rw [List.eq_of_mem_replicate ht]
      exact Bool.false_ne_true

/-- The start of a block takes room for one collection. -/
theorem beginBlock_left (h : Left text (d + 1) cs s.queue) (hf : t.Fits text) :
    Ends (Origin text) (s.beginBlock t) fun s' =>
      s'.cursor = s.cursor ∧ Left text d cs s'.queue := by
  have hkept := h.mono (Nat.le_add_right d 1)
  rw [beginBlock]
  split
  · exact ⟨rfl, hkept⟩
  · split
    · exact .malformed
    · split
      · next hb =>
        have hq : (s.beginAt s.column).queue = s.queue := by
          rw [beginAt, if_pos hb]
        have hc : (s.beginAt s.column).cursor = s.cursor := by
          rw [beginAt, if_pos hb]
        refine ⟨hc, ?_⟩
        change Left text d cs ((s.beginAt s.column).queue ++ [t])
        rw [hq]
        exact h.pushOpening hf
      · exact ⟨rfl, hkept⟩

/-! ### Tokens -/

/-- The ends of all blocks, and what may be a key no longer. -/
theorem endBlocks_left (h : Left text d cs s.queue) :
    Ends (Origin text) (s.unwind (-1)).dropKey fun s' =>
      s'.cursor = s.cursor ∧ Left text d cs s'.queue := by
  apply (dropKey_keeps (s.unwind (-1))).mono
  intro s' hk
  refine ⟨hk.1.trans (unwind_cursor s (-1)), ?_⟩
  rw [hk.2]
  exact unwind_left h (-1)

theorem finish_fits (h : s.Fits text d) : Ends (Origin text) s.finish (Fits text d) := by
  apply Ends.bind (endBlocks_left h)
  rintro s' ⟨hc, hq⟩
  change Left text d s'.cursor.rest (s'.queue ++ [.textEnd])
  rw [hc]
  exact hq.push trivial rfl

theorem readMarker_fits (h : s.Fits text d) (hf : t.Fits text) (ho : t.opens = false) :
    Ends (Origin text) (s.readMarker t) (Fits text d) := by
  apply Ends.bind (endBlocks_left h)
  rintro s' ⟨hc, hq⟩
  change Left text d (s'.cursor.advance startMarker.length).rest (s'.queue ++ [t])
  rw [hc, Cursor.rest_advance]
  exact (hq.suffix (List.drop_suffix _ _)).push hf ho

theorem readDirective_fits (h : s.Fits text d) (hp : '%' ∈ s.cursor.rest) :
    Ends (Origin text) s.readDirective (Fits text d) := by
  apply Ends.bind (endBlocks_left h)
  rintro s' ⟨hc, hq⟩
  have hread : Ends (Origin s.cursor.rest) (directiveAt s'.version s'.limit s.cursor) fun r =>
      r.2.Within s.cursor.rest := directiveAt_within List.suffix_rfl hp _ _
  rw [hc]
  apply Ends.bind (hread.suffix h.chars)
  rintro ⟨r, cursor⟩ hw
  have hl : Left text d cursor.rest (s'.queue ++ [.directive r]) :=
    (hq.suffix hw).push (h.chars.subset hp) rfl
  cases r with
  | version major minor => exact hl
  | handle name start => exact hl
  | other => exact hl

theorem openBracket_fits (h : s.Fits text d) (hs : s.cursor.rest = ch :: cs)
    (ho : opensCollection ch = true) (b : Bracket) :
    Ends (Origin text) (s.openBracket b) (Fits text d) := by
  rw [Fits, hs] at h
  apply Ends.bind (noteKey_keeps s)
  intro s' hk
  change Left text d s'.cursor.step.rest (s'.queue ++ [.flowStart b])
  rw [hk.1, hk.2, Cursor.step_rest, hs]
  exact ((h.next ho).mono (Nat.le_succ _)).pushOpening trivial

/-- A token of one character that begins nothing. -/
theorem stepped_left (h : s.Fits text d) (hk : Keeps s s') (hf : t.Fits text)
    (ho : t.opens = false) : Left text d s'.cursor.step.rest (s'.queue ++ [t]) := by
  rw [hk.1, hk.2, Cursor.step_rest]
  exact (h.suffix (List.tail_suffix _)).push hf ho

theorem closeBracket_fits (h : s.Fits text d) (b : Bracket) :
    Ends (Origin text) (s.closeBracket b) (Fits text d) :=
  (dropKey_keeps s).bind fun _ hk => stepped_left h hk trivial rfl

theorem readComma_fits (h : s.Fits text d) : Ends (Origin text) s.readComma (Fits text d) :=
  (dropKey_keeps s).bind fun _ hk => stepped_left h hk trivial rfl

/-- The start of a block, if one starts, and what may be a key no longer. -/
theorem startBlock_left (h : Left text (d + 1) cs s.queue) (hf : t.Fits text) :
    Ends (Origin text) (s.beginBlock t >>= dropKey) fun s' =>
      s'.cursor = s.cursor ∧ Left text d cs s'.queue := by
  apply Ends.bind (beginBlock_left h hf)
  rintro s' ⟨hc, hq⟩
  apply (dropKey_keeps s').mono
  intro s'' hk
  rw [hk.1, hk.2]
  exact ⟨hc, hq⟩

/-- A token of one character that begins an item or an entry. -/
theorem opened_left (h : s'.cursor = s.cursor ∧ Left text (d + 1) cs s'.queue)
    (hs : s.cursor.rest = ch :: cs) (hf : t.Fits text) :
    Left text d s'.cursor.step.rest (s'.queue ++ [t]) := by
  rw [h.1, Cursor.step_rest, hs]
  exact h.2.pushOpening hf

theorem readEntry_fits (h : s.Fits text d) (hs : s.cursor.rest = ch :: cs)
    (ho : opensCollection ch = true) : Ends (Origin text) s.readEntry (Fits text d) := by
  rw [Fits, hs] at h
  rw [readEntry, ← bind_assoc]
  apply Ends.bind (startBlock_left (t := .blockSequence) (h.next ho) trivial)
  exact fun _ hb => opened_left hb hs trivial

theorem readKey_fits (h : s.Fits text d) (hs : s.cursor.rest = ch :: cs)
    (ho : opensCollection ch = true) : Ends (Origin text) s.readKey (Fits text d) := by
  rw [Fits, hs] at h
  rw [readKey, ← bind_assoc]
  apply Ends.bind (startBlock_left (t := .blockMapping) (h.next ho) trivial)
  exact fun _ hb => opened_left hb hs trivial

/-- Tokens among others take the same room as behind them. -/
theorem putAt_left (h : Left text (d + n) cs s.queue) (index : Nat) (hu : ∀ t ∈ us, t.Fits text)
    (hn : us.countP Token.opens ≤ n) : Left text d cs (s.putAt index us).queue := by
  let k := index - s.taken
  have hp : (s.queue.take k ++ (us ++ s.queue.drop k)).Perm
      (s.queue.take k ++ (s.queue.drop k ++ us)) := List.perm_append_comm.append_left _
  rw [← List.append_assoc, ← List.append_assoc, List.take_append_drop] at hp
  exact (h.append hu hn).perm hp

/-- A stream with a key in its place, and the block that the key begins, if it begins one. -/
def withKey (s : Stream) (k : PendingKey) : Stream :=
  if !s.inFlow && s.begins k.mark.column then
    (s.beginAt k.mark.column).putAt k.index [.blockMapping, .key]
  else s.putAt k.index [.key]

theorem withKey_left (h : Left text (d + 2) cs s.queue) (k : PendingKey) :
    (s.withKey k).cursor = s.cursor ∧ Left text d cs (s.withKey k).queue := by
  rw [withKey]
  split
  · next hb =>
    rw [beginAt, if_pos (Bool.and_eq_true_iff.1 hb).2]
    exact ⟨rfl, putAt_left (n := 2) h _ (by simp [Token.Fits]) Nat.le.refl⟩
  · exact ⟨rfl, putAt_left (n := 1) (h.mono (Nat.le_succ _)) _ (by simp [Token.Fits]) Nat.le.refl⟩

theorem readValue_fits (h : s.Fits text d) (hs : s.cursor.rest = ch :: cs)
    (ho : opensCollection ch = true) : Ends (Origin text) s.readValue (Fits text d) := by
  rw [Fits, hs] at h
  have hl := h.next ho
  have hpush : ∀ s' : Stream, s'.cursor = s.cursor ∧ Left text d cs s'.queue →
      Left text d s'.cursor.step.rest (s'.queue ++ [.value]) := by
    rintro s' ⟨hc, hq⟩
    rw [hc, Cursor.step_rest, hs]
    exact hq.push trivial rfl
  rw [readValue]
  cases s.pendingKey? with
  | none =>
    apply Ends.bind (beginBlock_left (t := .blockMapping) (hl.mono (Nat.le_succ _)) trivial)
    rintro s' ⟨hc, hq⟩
    apply Ends.bind (dropKey_keeps s')
    rintro s'' ⟨hc', hq'⟩
    exact hpush s'' ⟨hc'.trans hc, hq' ▸ hq⟩
  | some k => exact hpush (s.forgetKey.withKey k) (withKey_left (s := s.forgetKey) hl k)

theorem readWord_fits (h : s.Fits text d) {read : Cursor → Except Cause (Token × Cursor)}
    (hr : Ends (Origin s.cursor.rest) (read s.cursor) fun r =>
      (r.1.Fits text ∧ r.1.opens = false) ∧ r.2.Within s.cursor.rest) :
    Ends (Origin text) (s.readWord read) (Fits text d) := by
  apply Ends.bind (noteKey_keeps s)
  intro s' hk
  rw [hk.1]
  apply Ends.bind (hr.suffix h.chars)
  rintro ⟨t, cursor⟩ ⟨⟨hf, ho⟩, hw⟩
  change Left text d cursor.rest (s'.queue ++ [t])
  rw [hk.2]
  exact (h.suffix hw).push hf ho

theorem readName_fits (h : s.Fits text d) {token : String → Token}
    (ht : ∀ name, (token name).Fits text ∧ (token name).opens = false) :
    Ends (Origin text) (s.readName token) (Fits text d) := by
  apply readWord_fits h
  apply ends_orMalformed .malformed
  intro r hr
  obtain ⟨a, ha, rfl⟩ := Option.map_eq_some_iff.1 hr
  exact ⟨ht a.1, anchorName?_within List.suffix_rfl ha⟩

theorem readTag_fits (h : s.Fits text d) (he : '!' ∈ text) :
    Ends (Origin text) s.readTag (Fits text d) := by
  apply readWord_fits h
  apply ends_orMalformed .malformed
  intro r hr
  obtain ⟨⟨handle, suffix, ht⟩, hw⟩ := tagAt?_within List.suffix_rfl hr
  rw [ht]
  exact ⟨⟨he, rfl⟩, hw⟩

theorem readQuoted_fits (h : s.Fits text d) (quote : Char) :
    Ends (Origin text) (s.readQuoted quote) (Fits text d) := by
  apply readWord_fits h
  apply (quotedScalar_within List.suffix_rfl quote s.limit).map
  exact fun _ hw => ⟨⟨trivial, rfl⟩, hw⟩

theorem readPlain_fits (h : s.Fits text d) : Ends (Origin text) s.readPlain (Fits text d) := by
  apply Ends.bind (noteKey_keeps s)
  rintro s' ⟨hc, hq⟩
  have hw : (plainScalar s'.version s'.inFlow s'.indent s'.limit s.cursor).2.1.Within
      s.cursor.rest := plainScalar_within List.suffix_rfl _ _ _ _
  rw [hc]
  change Left text d _ (s'.queue ++ [_])
  rw [hq]
  exact (h.suffix hw).push trivial rfl

theorem readBlock_fits (h : s.Fits text d) : Ends (Origin text) s.readBlock (Fits text d) := by
  apply Ends.bind (dropKey_keeps s)
  rintro s' ⟨hc, hq⟩
  rw [hc]
  apply Ends.bind ((blockScalar_within List.suffix_rfl s'.indent s'.limit).suffix h.chars)
  intro r hw
  change Left text d r.2.rest (s'.queue ++ [_])
  rw [hq]
  exact (h.suffix hw).push trivial rfl

theorem readToken_fits (h : s.Fits text d) (hs : s.cursor.rest = ch :: cs) :
    Ends (Origin text) (s.readToken ch cs) (Fits text d) := by
  have hm : ch ∈ s.cursor.rest := hs ▸ List.mem_cons_self
  have opens : ∀ {a : Char} {b : Bool}, (ch == a && b) = true → opensCollection a = true →
      opensCollection ch = true := by
    intro a b hab ha
    rwa [beq_iff_eq.1 (Bool.and_eq_true_iff.1 hab).1]
  unfold readToken
  split
  · next hc =>
    have hp : ch = '%' := beq_iff_eq.1 (Bool.and_eq_true_iff.1 hc).2
    exact readDirective_fits h (hp ▸ hm)
  · split
    · exact readMarker_fits h trivial rfl
    · split
      · exact readMarker_fits h trivial rfl
      · split
        · exact openBracket_fits h hs rfl _
        · exact openBracket_fits h hs rfl _
        · exact closeBracket_fits h _
        · exact closeBracket_fits h _
        · exact readComma_fits h
        · exact readName_fits h fun _ => ⟨trivial, rfl⟩
        · exact readName_fits h fun _ => ⟨trivial, rfl⟩
        · exact readTag_fits h (h.chars.subset hm)
        · exact readQuoted_fits h _
        · exact readQuoted_fits h _
        · split
          · next hc => exact readEntry_fits h hs (opens hc rfl)
          · split
            · next hc => exact readKey_fits h hs (opens hc rfl)
            · split
              · next hc => exact readValue_fits h hs (opens hc rfl)
              · split
                · exact readBlock_fits h
                · split
                  · exact readPlain_fits h
                  · exact .malformed

theorem fetch_fits (h : s.Fits text d) : Ends (Origin text) s.fetch (Fits text d) := by
  rw [fetch]
  have hw := skipGap_suffix s.inFlow false s.cursor.rest s.cursor.mark s.fresh
  generalize skipGap s.inFlow false s.cursor.rest s.cursor.mark s.fresh = gap at hw
  obtain ⟨cursor, fresh⟩ := gap
  apply Ends.bind (dropStale_keeps _)
  intro s' hk
  have hf : s'.Fits text d := hk.fits (h.suffix hw)
  have hu : (s'.unwind s'.column).Fits text d := by
    rw [Fits, unwind_cursor]
    exact unwind_left hf _
  dsimp only
  split
  · exact finish_fits hu
  · next hc => exact readToken_fits hu hc

theorem fill_fits (h : s.Fits text d) (limit : Nat) :
    Ends (Origin text) (fill limit s) (Fits text d) := by
  induction limit generalizing s with
  | zero => exact h
  | succ limit ih =>
    rw [fill]
    split
    · exact h
    · split
      · exact (fetch_fits h).bind fun _ => ih
      · apply Ends.bind (dropStale_keeps s)
        intro s' hk
        have hf := hk.fits h
        split
        · exact (fetch_fits hf).bind fun _ => ih
        · exact hf

/-- The next token is known to be a given one. -/
structure Shows (text : List Char) (depth : Nat) (t : Token) (s : Stream) : Prop where
  fits : s.Fits text depth
  head : s.queue.head?.getD .textEnd = t

theorem head_shows (h : s.Fits text d) :
    Ends (Origin text) s.head fun r => r.2.Shows text d r.1 :=
  (fill_fits h s.limit).bind fun _ hs => ⟨hs, rfl⟩

theorem Shows.token (h : s.Shows text d t) : t.Fits text := by
  obtain ⟨hf, rfl⟩ := h
  cases hq : s.queue with
  | nil => trivial
  | cons t q => exact hf.tokens t (by rw [hq]; exact List.mem_cons_self)

theorem Shows.tail (h : s.Shows text d t) : s.tail.Fits text (d + t.opens.toNat) := by
  obtain ⟨hf, rfl⟩ := h
  rw [Fits] at hf
  rw [Stream.tail]
  cases hq : s.queue with
  | nil =>
    rw [hq] at hf
    change Left text d s.cursor.rest s.queue
    rwa [hq]
  | cons t q =>
    rw [hq] at hf
    exact hf.take

end Stream

end Relief.Yaml
