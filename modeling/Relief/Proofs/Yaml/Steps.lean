import Mathlib
import Relief.Proofs.Yaml.Parts
import Relief.Proofs.Yaml.Supply

/-!
What the steps of the parser do with a stream: what it gives stays left of the text, and a step that fails
does so for a cause that the text has.
-/
namespace Relief.Yaml

open Relief.Yaml.Stream

variable {α β : Type} {text : List Char} {P P' : Stream → Prop} {m : Parse α}
  {f : α → Parse β} {Q Q' : α → Stream → Prop} {R : β → Stream → Prop} {d : Nat} {t : Token}

/-- From streams of some kind, the parser goes on to a result and a stream of some kind, or fails for a
cause that a text has. -/
def Step (text : List Char) (P : Stream → Prop) (m : Parse α) (Q : α → Stream → Prop) : Prop :=
  ∀ src : Source, P src.stream → Ends (Origin text) (m.run src) fun r => Q r.1 r.2.stream

theorem Step.bind (h : Step text P m Q) (hf : ∀ a, Step text (Q a) (f a) R) :
    Step text P (m >>= f) R := by
  intro src hp
  rw [StateT.run_bind]
  exact (h src hp).bind fun r hr => hf r.1 r.2 hr

theorem Step.mono (h : Step text P' m Q') (hp : ∀ s, P s → P' s) (hq : ∀ a s, Q' a s → Q a s) :
    Step text P m Q := fun src hs => (h src (hp _ hs)).mono fun r => hq r.1 r.2.stream

/-- Room that is not needed does no harm. -/
theorem Step.within {d' : Nat} (h : Step text (Fits text d) m Q) (hd : d ≤ d') :
    Step text (Fits text d') m Q := h.mono (fun _ hs => hs.mono hd) fun _ _ hq => hq

theorem step_pure {a : α} (h : ∀ s, P s → Q a s) : Step text P (pure a) Q :=
  fun src hp => h src.stream hp

theorem step_throw {c : Cause} (h : ∀ s, P s → Origin text c) : Step text P (throw c) Q :=
  fun src hp => h src.stream hp

theorem step_malformed : Step text P malformed Q := step_throw fun _ _ => .malformed

theorem step_throw_bind {c : Cause} (h : ∀ s, P s → Origin text c) :
    Step text P (throw c >>= f) R := fun src hp => h src.stream hp

/-- The results of a step are of some kind, and what follows them is left of a text. -/
def Yields (text : List Char) (d : Nat) (A : α → Prop) (a : α) (s : Stream) : Prop :=
  A a ∧ s.Fits text d

theorem Step.andThen {A : α → Prop} (h : Step text P m (Yields text d A))
    (hf : ∀ a, A a → Step text (Fits text d) (f a) R) : Step text P (m >>= f) R :=
  h.bind fun a src hs => hf a hs.1 src hs.2

/-! ### Looking at tokens -/

theorem get_step : Step text P get fun _ => P := fun _ hp => hp

theorem version_step : Step text P version fun _ => P := fun _ hp => hp

theorem peek_step : Step text (Fits text d) peek fun t => Shows text d t := by
  intro src h
  have hl : Ends (Origin text) ((liftM src.stream.head : Parse (Token × Stream)).run src) fun r =>
      r.1.2.Shows text d r.1.1 := (head_shows h).bind fun _ hr => hr
  exact hl.bind fun _ hr => hr

theorem look_step : Step text (Fits text d) peek fun _ => Fits text d :=
  peek_step.mono (fun _ hs => hs) fun _ _ hs => hs.fits

theorem pass_step : Step text (Shows text d t) pass fun _ => Fits text (d + t.opens.toNat) :=
  fun _ h => h.tail

theorem step_of_shows (h : t.Fits text → Step text (Shows text d t) m Q) :
    Step text (Shows text d t) m Q := fun src hs => h hs.token src hs

/-- A token that is passed over leaves no less room than it took. -/
theorem pass_keeps : Step text (Shows text d t) pass fun _ => Fits text d :=
  pass_step.mono (fun _ h => h) fun _ _ h => h.mono (Nat.le_add_right d _)

theorem passIf_step (t : Token) :
    Step text (Fits text d) (passIf t) fun b => Fits text (d + (b && t.opens).toNat) := by
  rw [passIf]
  apply peek_step.bind
  intro u
  split
  · next hu =>
    rw [beq_iff_eq.1 hu]
    exact pass_step.bind fun _ => step_pure fun _ h => h
  · exact step_pure fun _ h => h.fits

theorem passIf_keeps (t : Token) : Step text (Fits text d) (passIf t) fun _ => Fits text d :=
  (passIf_step t).mono (fun _ h => h) fun _ _ h => h.mono (Nat.le_add_right d _)

theorem separator_step (first : Bool) :
    Step text (Fits text d) (separator first) fun _ => Fits text d := by
  rw [separator]
  split
  · apply (passIf_keeps .comma).bind
    intro b
    split
    · exact step_malformed
    · exact step_pure fun _ h => h
  · exact step_pure fun _ h => h

/-! ### Names and tags -/

theorem newAnchor_step (name : String) : Step text P (newAnchor name) fun _ => P := fun _ hp => hp

theorem fullTag_step (handle : Option String) (suffix : String) :
    Step text P (fullTag handle suffix) fun _ => P := by
  cases handle with
  | none => exact step_pure fun _ h => h
  | some name =>
    apply get_step.bind
    intro src
    split
    · exact step_pure fun _ h => h
    · exact step_malformed

/-- A tag stands in a text with an exclamation mark. -/
theorem propTokens_step : Step text (Fits text d) propTokens
    (Yields text d fun r => r.2 = none ∨ '!' ∈ text) := by
  rw [propTokens]
  apply peek_step.bind
  intro t
  split
  · apply pass_keeps.bind
    intro _
    apply peek_step.bind
    intro u
    split
    · apply step_of_shows
      intro he
      exact pass_keeps.bind fun _ => step_pure fun _ h => ⟨.inr he, h⟩
    · exact step_pure fun _ h => ⟨.inl rfl, h.fits⟩
  · apply step_of_shows
    intro he
    apply pass_keeps.bind
    intro _
    apply peek_step.bind
    intro u
    split
    · exact pass_keeps.bind fun _ => step_pure fun _ h => ⟨.inr he, h⟩
    · exact step_pure fun _ h => ⟨.inr he, h.fits⟩
  · exact step_pure fun _ h => ⟨.inl rfl, h.fits⟩

theorem props_step : Step text (Fits text d) props
    (Yields text d fun r => r.2 = none ∨ '!' ∈ text) := by
  rw [props]
  apply propTokens_step.andThen
  rintro ⟨name, tag⟩ ht
  cases tag with
  | none => exact step_pure fun _ h => ⟨.inl rfl, h⟩
  | some tag =>
    have he : '!' ∈ text := by simpa using ht
    exact (fullTag_step tag.1 tag.2).bind fun _ => step_pure fun _ h => ⟨.inr he, h⟩

/-! ### Nodes -/

/-- What the parser makes within so many collections, with some fuel, is made of nodes that the text may
have. The items at the column of their mapping count as they begin. -/
structure Upholds (text : List Char) (fuel : Nat) : Prop where
  node : ∀ d block sameColumn, Step text (Fits text d) (node fuel d block sameColumn)
    (Yields text d fun n => n.Fits text)
  nodeUnless : ∀ d block sameColumn ends, Step text (Fits text d)
    (nodeUnless fuel d block sameColumn ends) (Yields text d fun n => n.Fits text)
  blockItems : ∀ d, Step text (Fits text d) (blockItems fuel d)
    (Yields text d fun ns => ∀ n ∈ ns, n.Fits text)
  entryItems : ∀ d, Step text (Fits text d) (entryItems fuel (d + 1))
    (Yields text d fun ns => ∀ n ∈ ns, n.Fits text)
  blockEntries : ∀ d, Step text (Fits text d) (blockEntries fuel d)
    (Yields text d fun es => ∀ e ∈ es, e.1.Fits text ∧ e.2.Fits text)
  flowItems : ∀ d first, Step text (Fits text d) (flowItems fuel d first)
    (Yields text d fun ns => ∀ n ∈ ns, n.Fits text)
  flowEntries : ∀ d first, Step text (Fits text d) (flowEntries fuel d first)
    (Yields text d fun es => ∀ e ∈ es, e.1.Fits text ∧ e.2.Fits text)

theorem upholds_zero : Upholds text 0 := by
  constructor
  all_goals
    intros
    simp only [node, nodeUnless, blockItems, entryItems, blockEntries, flowItems, flowEntries]
    exact step_malformed

theorem fits_emptyNode : emptyNode.Fits text := .scalar .v12 true (.text "")

section Elements

variable {A : α → Prop} {a : α} {rest : Parse (List α)} {d' : Nat}

theorem nil_step : Step text (Fits text d) (pure []) (Yields text d fun as => ∀ a ∈ as, A a) :=
  step_pure fun _ hs => ⟨fun _ hn => absurd hn List.not_mem_nil, hs⟩

/-- An element before all others, which may be left with less room. -/
theorem cons_step (ha : A a)
    (h : Step text (Fits text d) rest (Yields text d' fun as => ∀ a ∈ as, A a)) :
    Step text (Fits text d) (do return a :: (← rest)) (Yields text d' fun as => ∀ a ∈ as, A a) :=
  h.bind fun _ => step_pure fun _ hs => ⟨List.forall_mem_cons.2 ⟨ha, hs.1⟩, hs.2⟩

/-- The end of the elements, if a token shows it. -/
theorem end_step (t : Token) : Step text (Fits text d)
    (do if ← passIf t then return [] else malformed) (Yields text d fun as => ∀ a ∈ as, A a) := by
  apply (passIf_keeps t).bind
  intro b
  split
  · exact nil_step
  · exact step_malformed

/-- A part that may be missing, and what is made of it. -/
theorem optional_step {b : Bool} {x : Parse α} (hx : Step text (Fits text d) x (Yields text d A))
    (ha : A a) (hf : ∀ a, A a → Step text (Fits text d) (f a) R) :
    Step text (Fits text d) (if b then x >>= f else pure a >>= f) R := by
  split
  · exact hx.andThen hf
  · rw [pure_bind]
    exact hf a ha

end Elements

variable {fuel : Nat} {ends : List Token} {block sameColumn first : Bool}

theorem nodeUnless_step (h : Upholds text fuel) : Step text (Fits text d)
    (nodeUnless (fuel + 1) d block sameColumn ends) (Yields text d fun n => n.Fits text) := by
  rw [nodeUnless]
  apply peek_step.bind
  intro t
  split
  · exact step_pure fun _ hs => ⟨fits_emptyNode, hs.fits⟩
  · exact (h.node d block sameColumn).mono (fun _ hs => hs.fits) fun _ _ hn => hn

theorem blockItems_step (h : Upholds text fuel) : Step text (Fits text d)
    (blockItems (fuel + 1) d) (Yields text d fun ns => ∀ n ∈ ns, n.Fits text) := by
  rw [blockItems]
  apply (passIf_keeps .entry).bind
  intro b
  split
  · apply (h.nodeUnless d true false _).andThen
    intro n hn
    exact cons_step hn (h.blockItems d)
  · exact end_step .blockEnd

theorem entryItems_step (h : Upholds text fuel) : Step text (Fits text d)
    (entryItems (fuel + 1) (d + 1)) (Yields text d fun ns => ∀ n ∈ ns, n.Fits text) := by
  rw [entryItems]
  apply (passIf_step .entry).bind
  intro b
  split
  · next hb =>
    rw [hb]
    apply (h.nodeUnless (d + 1) true false _).andThen
    intro n hn
    apply cons_step hn
    exact (h.entryItems d).within (Nat.le_add_right d 1)
  · exact nil_step.within (Nat.le_add_right d _)

theorem blockEntries_step (h : Upholds text fuel) : Step text (Fits text d)
    (blockEntries (fuel + 1) d)
    (Yields text d fun es => ∀ e ∈ es, e.1.Fits text ∧ e.2.Fits text) := by
  rw [blockEntries]
  apply look_step.bind
  intro t
  apply version_step.bind
  intro v
  split
  · apply (passIf_keeps .key).bind
    intro b
    apply optional_step (h.nodeUnless d true true _) fits_emptyNode
    intro k hk
    apply (passIf_keeps .value).bind
    intro b
    apply optional_step (h.nodeUnless d true true _) fits_emptyNode
    intro v hv
    exact cons_step ⟨hk, hv⟩ (h.blockEntries d)
  · exact end_step .blockEnd

theorem flowItems_step (h : Upholds text fuel) : Step text (Fits text d)
    (flowItems (fuel + 1) d first) (Yields text d fun ns => ∀ n ∈ ns, n.Fits text) := by
  rw [flowItems]
  apply (passIf_keeps (.flowEnd .square)).bind
  intro b
  split
  · exact nil_step
  · apply (separator_step first).bind
    intro _
    apply (passIf_keeps (.flowEnd .square)).bind
    intro b
    split
    · exact nil_step
    · apply (passIf_step .key).bind
      intro b
      dsimp only
      split
      · next hb =>
        -- The item is a mapping itself, which the token of its key makes room for.
        rw [hb]
        apply (h.nodeUnless (d + 1) false false _).andThen
        intro k hk
        apply (passIf_keeps .value).bind
        intro b
        apply optional_step (h.nodeUnless (d + 1) false false _) fits_emptyNode
        intro v hv
        rw [pure_bind]
        apply cons_step
        · apply Node.Fits.mapping
          · exact List.forall_mem_singleton.2 hk
          · exact List.forall_mem_singleton.2 hv
        · exact (h.flowItems d false).within (Nat.le_add_right d 1)
      · apply ((h.node d false false).within (Nat.le_add_right d _)).andThen
        intro n hn
        exact cons_step hn (h.flowItems d false)

theorem flowEntries_step (h : Upholds text fuel) : Step text (Fits text d)
    (flowEntries (fuel + 1) d first)
    (Yields text d fun es => ∀ e ∈ es, e.1.Fits text ∧ e.2.Fits text) := by
  rw [flowEntries]
  apply (passIf_keeps (.flowEnd .brace)).bind
  intro b
  split
  · exact nil_step
  · apply (separator_step first).bind
    intro _
    apply (passIf_keeps (.flowEnd .brace)).bind
    intro b
    split
    · exact nil_step
    · apply look_step.bind
      intro t
      apply version_step.bind
      intro v
      dsimp only
      split
      · apply (passIf_keeps .key).bind
        intro b
        apply optional_step (h.nodeUnless d false false _) fits_emptyNode
        intro k hk
        apply (passIf_keeps .value).bind
        intro b
        apply optional_step (h.nodeUnless d false false _) fits_emptyNode
        intro v hv
        rw [pure_bind]
        exact cons_step ⟨hk, hv⟩ (h.flowEntries d false)
      · apply (h.node d false false).andThen
        intro k hk
        rw [pure_bind]
        exact cons_step ⟨hk, fits_emptyNode⟩ (h.flowEntries d false)

/-- A node with an anchor, if it has one. -/
def withAnchor : Option Nat → Node → Node
  | some a, n => .anchored a n
  | none, n => n

theorem fits_withAnchor {n : Node} (h : n.Fits text) (anchor : Option Nat) :
    (withAnchor anchor n).Fits text := by
  cases anchor with
  | none => exact h
  | some a => exact .anchored a h

/-- A node behind its properties, of which the first is the number of its anchor. -/
def nodeBehind (fuel depth : Nat) (block sameColumn : Bool) (anchor : Option Nat) (named : Bool)
    (tag : Option String) (v : Version) (t : Token) : Parse Node := do
  let n ← match t with
    | .scalar plain text => do
      pass
      pure (Node.scalar (Kind.ofScalar v tag plain text.string) text)
    | .flowStart .square => do
      pass
      pure (.sequence (Kind.ofTag v tag .sequence) (← flowItems fuel (depth + 1) true))
    | .flowStart .brace => do
      pass
      pure (.mapping (Kind.ofTag v tag .mapping) (← flowEntries fuel (depth + 1) true))
    | t => do
      if block && t == .blockSequence then
        pass
        pure (.sequence (Kind.ofTag v tag .sequence) (← blockItems fuel (depth + 1)))
      else if block && t == .blockMapping then
        pass
        pure (.mapping (Kind.ofTag v tag .mapping) (← blockEntries fuel (depth + 1)))
      else if sameColumn && t == .entry then
        pure (.sequence (Kind.ofTag v tag .sequence) (← entryItems fuel (depth + 1)))
      else if named || tag.isSome then
        pure (.scalar (Kind.ofScalar v tag true "") (.text ""))
      else malformed
  return withAnchor anchor n

section Behind

variable {tag : Option String} {v : Version} {ns : List Node} {es : List (Node × Node)}

theorem fits_scalar (ht : tag = none ∨ '!' ∈ text) (plain : Bool) (w : Wording) :
    (Node.scalar (Kind.ofScalar v tag plain w.string) w).Fits text := by
  cases ht with
  | inl ht =>
    rw [ht]
    exact .scalar v plain w
  | inr he => exact .tagged he

theorem fits_sequence (ht : tag = none ∨ '!' ∈ text) (h : ∀ n ∈ ns, n.Fits text) :
    (Node.sequence (Kind.ofTag v tag .sequence) ns).Fits text := by
  cases ht with
  | inl ht =>
    rw [ht]
    exact .sequence h
  | inr he => exact .tagged he

theorem fits_mapping (ht : tag = none ∨ '!' ∈ text)
    (h : ∀ e ∈ es, e.1.Fits text ∧ e.2.Fits text) :
    (Node.mapping (Kind.ofTag v tag .mapping) es).Fits text := by
  cases ht with
  | inl ht =>
    rw [ht]
    exact .mapping (fun e he => (h e he).1) fun e he => (h e he).2
  | inr he => exact .tagged he

/-- A collection behind the token that begins it, by what reads the things in it. -/
theorem collection_step {A : α → Prop} {make : α → Node} (ho : t.opens = true)
    (h : Step text (Fits text (d + 1)) m (Yields text (d + 1) A))
    (hm : ∀ a, A a → (make a).Fits text) (anchor : Option Nat) : Step text (Shows text d t)
      (do
        pass
        let a ← m
        let n ← pure (make a)
        return withAnchor anchor n)
      (Yields text d fun n => n.Fits text) := by
  apply pass_step.bind
  intro _
  rw [ho]
  apply h.andThen
  intro a ha
  rw [pure_bind]
  exact step_pure fun _ hs => ⟨fits_withAnchor (hm a ha) anchor, hs.mono (Nat.le_succ d)⟩

theorem nodeBehind_step (h : Upholds text fuel) (ht : tag = none ∨ '!' ∈ text)
    (anchor : Option Nat) (named : Bool) : Step text (Shows text d t)
      (nodeBehind fuel d block sameColumn anchor named tag v t)
      (Yields text d fun n => n.Fits text) := by
  have done : ∀ n : Node, n.Fits text → Step text (Fits text d) (pure (withAnchor anchor n))
      (Yields text d fun n => n.Fits text) := fun n hn =>
    step_pure fun _ hs => ⟨fits_withAnchor hn anchor, hs⟩
  unfold nodeBehind
  split
  · next plain w =>
    apply pass_keeps.bind
    intro _
    rw [pure_bind]
    exact done _ (fits_scalar ht plain w)
  · exact collection_step rfl (h.flowItems (d + 1) true) (fun _ => fits_sequence ht) anchor
  · exact collection_step rfl (h.flowEntries (d + 1) true) (fun _ => fits_mapping ht) anchor
  · split
    · next hb =>
      rw [beq_iff_eq.1 (Bool.and_eq_true_iff.1 hb).2]
      exact collection_step rfl (h.blockItems (d + 1)) (fun _ => fits_sequence ht) anchor
    · split
      · next hb =>
        rw [beq_iff_eq.1 (Bool.and_eq_true_iff.1 hb).2]
        exact collection_step rfl (h.blockEntries (d + 1)) (fun _ => fits_mapping ht) anchor
      · split
        · -- No token begins the sequence, the first of its items is still to come.
          apply ((h.entryItems d).mono (fun _ hs => hs.fits) fun _ _ hs => hs).andThen
          intro ns hn
          rw [pure_bind]
          exact done _ (fits_sequence ht hn)
        · split
          · rw [pure_bind]
            exact (done _ (fits_scalar ht true (.text ""))).mono (fun _ hs => hs.fits)
              fun _ _ hs => hs
          · exact step_throw_bind fun _ _ => .malformed

end Behind

theorem node_step (h : Upholds text fuel) : Step text (Fits text d)
    (node (fuel + 1) d block sameColumn) (Yields text d fun n => n.Fits text) := by
  rw [node]
  dsimp only
  split
  · next hd => exact step_throw_bind fun _ hs => hs.tooDeep hd
  · apply peek_step.bind
    intro t
    split
    · apply pass_keeps.bind
      intro _
      apply get_step.bind
      intro src
      split
      · exact step_pure fun _ hs => ⟨.reference _, hs⟩
      · exact step_malformed
    · apply (props_step.mono (fun _ hs => hs.fits) fun _ _ hs => hs).andThen
      rintro ⟨name, tag⟩ ht
      apply peek_step.bind
      intro t
      apply version_step.bind
      intro v
      cases name with
      | none => exact nodeBehind_step h ht none false
      | some name =>
        apply (newAnchor_step name).bind
        intro a
        exact nodeBehind_step h ht (some a) true

theorem upholds (text : List Char) (fuel : Nat) : Upholds text fuel := by
  induction fuel with
  | zero => exact upholds_zero
  | succ fuel ih =>
    exact {
      node := fun _ _ _ => node_step ih
      nodeUnless := fun _ _ _ _ => nodeUnless_step ih
      blockItems := fun _ => blockItems_step ih
      entryItems := fun _ => entryItems_step ih
      blockEntries := fun _ => blockEntries_step ih
      flowItems := fun _ _ => flowItems_step ih
      flowEntries := fun _ _ => flowEntries_step ih }

/-! ### Documents -/

theorem directives_step (limit : Nat) {numbers : Option (Nat × Nat)}
    (hn : numbers.isSome → '%' ∈ text) (handles : List (String × String)) :
    Step text (Fits text d) (directives limit numbers handles) fun _ => Fits text d := by
  induction limit generalizing numbers handles with
  | zero => exact step_malformed
  | succ limit ih =>
    rw [directives]
    apply peek_step.bind
    intro t
    split
    · next directive =>
      apply step_of_shows
      intro hp
      apply pass_keeps.bind
      intro _
      cases directive with
      | version major minor =>
        dsimp only
        split
        · exact step_malformed
        · exact ih (fun _ => hp) handles
      | handle name start =>
        dsimp only
        split
        · exact step_malformed
        · exact ih hn _
      | other => exact ih hn handles
    · have hset : Step text (Shows text d t)
          (modify fun s => { s with handles := handles ++ standardHandles })
          fun _ => Fits text d := fun _ hs => hs.fits
      cases numbers with
      | none => exact hset
      | some numbers =>
        dsimp only
        split
        · exact step_throw_bind fun _ _ => .version (hn rfl)
        · exact hset

theorem beginsWithMark_step (limit : Nat) :
    Step text (Fits text d) (beginsWithMark limit) fun _ => Fits text d := by
  induction limit with
  | zero => exact step_malformed
  | succ limit ih =>
    rw [beginsWithMark]
    apply (passIf_keeps .documentEnd).bind
    intro b
    split
    · exact ih
    · apply look_step.bind
      intro t
      split
      · exact step_pure fun _ hs => hs
      · apply (directives_step limit (fun h => by cases h) []).bind
        intro _
        apply (passIf_keeps .documentStart).bind
        intro b
        split
        · exact step_pure fun _ hs => hs
        · exact step_malformed

theorem atMark_step : Step text (Fits text d) atMark fun _ => Fits text d := by
  rw [atMark]
  apply look_step.bind
  intro t
  split
  all_goals exact step_pure fun _ hs => hs

theorem finish_step (limit : Nat) :
    Step text (Fits text d) (Yaml.finish limit) fun _ => Fits text d := by
  rw [Yaml.finish]
  apply (passIf_keeps .documentEnd).bind
  intro marked
  apply look_step.bind
  intro t
  apply version_step.bind
  intro v
  apply atMark_step.bind
  intro b
  split
  · exact step_malformed
  · apply (beginsWithMark_step limit).bind
    intro b
    split
    · exact step_malformed
    · exact step_pure fun _ hs => hs

theorem document_step (limit : Nat) :
    Step text (Fits text 0) (document limit) fun found _ => ∀ n ∈ found, n.Fits text := by
  have hend : ∀ n : Node, n.Fits text → Step text (Fits text 0)
      (do Yaml.finish limit; return some n) fun found _ => ∀ n ∈ found, n.Fits text :=
    fun n hn => (finish_step limit).bind fun _ => step_pure fun _ _ => by simpa using hn
  have hnode := (upholds text (4 * limit)).node 0 true false
  rw [document]
  dsimp only
  apply atMark_step.bind
  intro b
  split
  · apply (beginsWithMark_step limit).bind
    intro b
    split
    · apply look_step.bind
      intro t
      split
      · rw [pure_bind]
        exact hend _ fits_emptyNode
      · exact hnode.andThen hend
    · exact step_pure fun _ _ n hn => by cases hn
  · exact hnode.andThen hend

/-- A text has a tree of nodes that it may have, or none for a cause that it has. -/
theorem parse_ends (text : String) :
    Ends (Origin text.toList) (parse text) fun found => ∀ n ∈ found, n.Fits text.toList := by
  have hs : (Stream.ofText text.toList).Fits text.toList 0 := by
    have hc : (Cursor.ofText text.toList).rest <:+ text.toList := ofText_suffix text.toList
    refine ⟨hc, fun t ht => absurd ht List.not_mem_nil, fun hcount => ?_⟩
    have hle := hc.sublist.countP_le (p := opensCollection)
    change 0 + (2 * (Cursor.ofText text.toList).rest.countP opensCollection + 0) ≤ 480
    omega
  rw [parse]
  dsimp only
  split
  · exact .malformed
  · apply (document_step _ _ hs).map
    intro r hr n hn
    obtain ⟨m, hm, rfl⟩ := Option.map_eq_some_iff.1 hn
    exact (hr m hm).resolve

end Relief.Yaml
