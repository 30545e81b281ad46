import Mathlib
import Relief.Yaml.Node

/-!
The nodes of a text. Without an exclamation mark in the text there are no tags in it, so plain scalars are
what their texts say, and all other nodes are just texts, sequences and mappings.
-/
namespace Relief.Yaml

namespace Node

/-! ### Parts -/

/-- A node stands directly within another one. -/
inductive Child : Node → Node → Prop where
  | item {kind : Kind} {ns : List Node} {n : Node} : n ∈ ns → Child n (sequence kind ns)
  | key {kind : Kind} {es : List (Node × Node)} {e : Node × Node} : e ∈ es →
    Child e.1 (mapping kind es)
  | value {kind : Kind} {es : List (Node × Node)} {e : Node × Node} : e ∈ es →
    Child e.2 (mapping kind es)
  | anchored {a : Nat} {n : Node} : Child n (anchored a n)
  | again {n : Node} : Child n (again n)

/-- A node is another one or stands within it. -/
def Part (m n : Node) : Prop := Relation.ReflTransGen Child m n

theorem child_wellFounded : WellFounded Child := by
  apply Subrelation.wf (r := fun m n => sizeOf m < sizeOf n)
  · intro m n h
    cases h with
    | item h =>
      have hl := List.sizeOf_lt_of_mem h
      rw [sequence.sizeOf_spec]
      omega
    | @key kind es e h =>
      have hl := List.sizeOf_lt_of_mem h
      have he : sizeOf e = 1 + sizeOf e.1 + sizeOf e.2 := rfl
      rw [mapping.sizeOf_spec]
      omega
    | @value kind es e h =>
      have hl := List.sizeOf_lt_of_mem h
      have he : sizeOf e = 1 + sizeOf e.1 + sizeOf e.2 := rfl
      rw [mapping.sizeOf_spec]
      omega
    | anchored =>
      rw [anchored.sizeOf_spec]
      omega
    | again =>
      rw [again.sizeOf_spec]
      omega
  · exact (measure sizeOf).wf

/-! ### Tags -/

/-- A node that a text may have. -/
inductive Fits (text : List Char) : Node → Prop where
  | tagged {n : Node} : '!' ∈ text → Fits text n
  | scalar (v : Version) (plain : Bool) (w : Wording) :
    Fits text (scalar (Kind.ofScalar v none plain w.string) w)
  | sequence {ns : List Node} : (∀ n ∈ ns, Fits text n) → Fits text (sequence .sequence ns)
  | mapping {es : List (Node × Node)} : (∀ e ∈ es, Fits text e.1) → (∀ e ∈ es, Fits text e.2) →
    Fits text (mapping .mapping es)
  | reference (a : Nat) : Fits text (reference a)
  | anchored (a : Nat) {n : Node} : Fits text n → Fits text (anchored a n)
  | again {n : Node} : Fits text n → Fits text (again n)

variable {text : List Char} {m n : Node} {ns : List Node} {es : List (Node × Node)}

theorem Fits.child (h : n.Fits text) (hm : Child m n) : m.Fits text := by
  cases h with
  | tagged he => exact .tagged he
  | scalar v plain w => cases hm
  | sequence h =>
    cases hm with
    | item hi => exact h _ hi
  | mapping hk hv =>
    cases hm with
    | key he => exact hk _ he
    | value he => exact hv _ he
  | reference a => cases hm
  | anchored a h =>
    cases hm with
    | anchored => exact h
  | again h =>
    cases hm with
    | again => exact h

theorem Fits.part (h : n.Fits text) (hm : Part m n) : m.Fits text := by
  induction hm with
  | refl => exact h
  | tail _ hc ih => exact ih (h.child hc)

/-! ### References -/

theorem replaceItems_eq_map (target : Bool → Nat → List Nat → Node) (given : Bool)
    (around : List Nat) (ns : List Node) :
    replaceItems target given around ns = ns.map (replace target given around) := by
  induction ns with
  | nil => rfl
  | cons n ns ih => rw [replaceItems, ih, List.map_cons]

theorem replaceEntries_eq_map (target : Bool → Nat → List Nat → Node) (around : List Nat)
    (es : List (Node × Node)) : replaceEntries target around es =
      es.map fun e => (replace target false around e.1, replace target e.1.isMerge around e.2) := by
  induction es with
  | nil => rfl
  | cons e es ih => rw [replaceEntries, ih, List.map_cons]

theorem Fits.replace (h : n.Fits text) {target : Bool → Nat → List Nat → Node}
    (ht : ∀ given a around, (target given a around).Fits text) (given : Bool) (around : List Nat) :
    (n.replace target given around).Fits text := by
  induction h generalizing given around with
  | tagged he => exact .tagged he
  | scalar v plain w => exact .scalar v plain w
  | @sequence ns _ ih =>
    rw [Node.replace, replaceItems_eq_map]
    apply Fits.sequence
    intro n hn
    obtain ⟨m, hm, rfl⟩ := List.mem_map.1 hn
    exact ih m hm given around
  | @mapping es _ _ ihk ihv =>
    rw [Node.replace, replaceEntries_eq_map]
    apply Fits.mapping
    · intro e he
      obtain ⟨p, hp, rfl⟩ := List.mem_map.1 he
      exact ihk p hp false around
    · intro e he
      obtain ⟨p, hp, rfl⟩ := List.mem_map.1 he
      exact ihv p hp p.1.isMerge around
  | reference a => exact ht given a around
  | anchored a _ ih => exact ih given _
  | again _ ih => exact .again (ih given around)

theorem mem_anchorsOfItems {p : Nat × Node} (h : p ∈ anchorsOfItems ns) :
    ∃ n ∈ ns, p ∈ n.anchors := by
  induction ns with
  | nil => cases h
  | cons n ns ih =>
    cases List.mem_append.1 h with
    | inl h => exact ⟨n, List.mem_cons_self, h⟩
    | inr h =>
      obtain ⟨m, hm, hp⟩ := ih h
      exact ⟨m, List.mem_cons_of_mem n hm, hp⟩

theorem mem_anchorsOfEntries {p : Nat × Node} (h : p ∈ anchorsOfEntries es) :
    ∃ e ∈ es, p ∈ e.1.anchors ∨ p ∈ e.2.anchors := by
  induction es with
  | nil => cases h
  | cons e es ih =>
    cases List.mem_append.1 h with
    | inl h => exact ⟨e, List.mem_cons_self, List.mem_append.1 h⟩
    | inr h =>
      obtain ⟨e', he, hp⟩ := ih h
      exact ⟨e', List.mem_cons_of_mem e he, hp⟩

theorem Fits.anchors (h : n.Fits text) {p : Nat × Node} (hp : p ∈ n.anchors) : p.2.Fits text := by
  induction h with
  | tagged he => exact .tagged he
  | scalar v plain w => cases hp
  | sequence _ ih =>
    obtain ⟨m, hm, hp⟩ := mem_anchorsOfItems hp
    exact ih m hm hp
  | mapping _ _ ihk ihv =>
    obtain ⟨e, he, hp⟩ := mem_anchorsOfEntries hp
    cases hp with
    | inl hp => exact ihk e he hp
    | inr hp => exact ihv e he hp
  | reference a => cases hp
  | anchored a h ih =>
    cases hp with
    | head => exact h
    | tail _ hp => exact ih hp
  | again _ ih => exact ih hp

theorem Fits.hollow (h : n.Fits text) : n.hollow.Fits text := by
  cases h with
  | tagged he => exact .tagged he
  | scalar v plain w => exact .scalar v plain w
  | sequence _ => exact .sequence fun _ hn => absurd hn List.not_mem_nil
  | mapping _ _ =>
    exact .mapping (fun _ he => absurd he List.not_mem_nil) fun _ he => absurd he List.not_mem_nil
  | reference a => exact .reference a
  | anchored a h => exact .anchored a h
  | again h => exact .again h

theorem Fits.follow {env : Anchors} (henv : ∀ a n, env.lookup a = some n → n.Fits text)
    (h : n.Fits text) (once : Bool) (limit : Nat) (given : Bool) (around : List Nat) :
    (follow env once limit given around n).Fits text := by
  induction limit generalizing n once given around with
  | zero =>
    apply h.replace
    intro _ a _
    cases ha : env.lookup a with
    | none => exact .reference a
    | some m => exact (henv a m ha).hollow
  | succ limit ih =>
    apply h.replace
    intro given a around
    cases ha : env.lookup a with
    | none => exact .reference a
    | some m =>
      have hm := henv a m ha
      dsimp only
      split
      · exact ih hm once given _
      · split
        · exact .again (ih hm false false around)
        · exact hm.hollow

theorem Fits.resolve (h : n.Fits text) : n.resolve.Fits text := by
  apply h.follow
  intro a m ha
  obtain ⟨l, r, he, -⟩ := List.lookup_eq_some_iff.1 ha
  have hmem : (a, m) ∈ n.anchors := by simp [he]
  exact h.anchors hmem

end Node

end Relief.Yaml
