import Mathlib
import Relief.Proofs.Outcome
import Relief.Proofs.Yaml.Parts
import Relief.Yaml.Data

/-!
Why the tree of a document stands for no data: a scalar in it stands for none, a key has a collection in
it, or an ordered mapping has a key twice.
-/
namespace Relief.Yaml

variable {α β : Type} {C : Cause → Prop} {x : Made α} {y : Made β}

/-! ### Blame -/

/-- What is made, unless a cause of some kind is in the way. -/
def Blames (C : Cause → Prop) (x : Made α) : Prop := ∀ f, x = .error f → C f.cause

theorem blames_ok (a : α) : Blames C (.ok a) := by
  intro f h
  cases h

theorem blames_error {f : Fault} (h : C f.cause) : Blames C (.error f : Made α) := by
  intro g hg
  cases hg
  exact h

theorem blames_fault {c : Cause} (h : C c) : Blames C (fault c : Made α) := blames_error h

theorem Blames.map (h : Blames C x) (g : α → β) : Blames C (x.map g) := by
  cases x with
  | ok a => exact blames_ok _
  | error f => exact blames_error (h f rfl)

theorem Blames.deeper (h : Blames C x) : Blames C (deeper x) := by
  cases x with
  | ok a => exact blames_ok _
  | error f => exact blames_error (h f rfl)

theorem Blames.both (hx : Blames C x) (hy : Blames C y) : Blames C (both x y) := by
  cases x with
  | ok a =>
    cases y with
    | ok b => exact blames_ok _
    | error g => exact blames_error (hy g rfl)
  | error f =>
    cases y with
    | ok b => exact blames_error (hx f rfl)
    | error g =>
      apply blames_error
      split
      · exact hy g rfl
      · exact hx f rfl

/-! ### Scalars -/

theorem intOf_fixed {v : Version} {s : String} {a : Value} (h : intOf v s = .ok a) :
    a.isFixed = true := by
  obtain ⟨r, -, h⟩ := bind_eq_ok_iff.1 h
  obtain ⟨n, -, h⟩ := bind_eq_ok_iff.1 h
  cases h
  rfl

theorem floatOf_fixed {v : Version} {s : String} {a : Value} (h : floatOf v s = .ok a) :
    a.isFixed = true := by
  obtain ⟨r, -, h⟩ := bind_eq_ok_iff.1 h
  obtain ⟨n, -, h⟩ := bind_eq_ok_iff.1 h
  cases h
  rfl

theorem boolOf_fixed {s : String} {a : Value} (h : boolOf s = .ok a) : a.isFixed = true := by
  unfold boolOf at h
  split at h
  · cases h
    rfl
  · split at h
    · cases h
      rfl
    · cases h

theorem stampOf_fixed {s : String} {a : Value} (h : stampOf s = .ok a) : a.isFixed = true := by
  unfold stampOf at h
  split at h
  · cases h
  · split at h
    · cases h
    · split at h
      · cases h
        rfl
      · cases h

theorem octetsOf_fixed {s : String} {a : Value} (h : octetsOf s = .ok a) : a.isFixed = true := by
  unfold octetsOf at h
  split at h
  · cases h
    rfl
  · cases h

/-- What a scalar stands for never changes. -/
theorem scalarValue_fixed {kind : Kind} {w : Wording} {a : Value}
    (h : scalarValue kind w = .ok a) : a.isFixed = true := by
  cases kind with
  | text =>
    cases h
    cases w with
    | text s => rfl
    | codes cs => rfl
  | int v => exact intOf_fixed h
  | float v => exact floatOf_fixed h
  | bool => exact boolOf_fixed h
  | null =>
    cases h
    rfl
  | stamp => exact stampOf_fixed h
  | octets => exact octetsOf_fixed h
  | sequence | mapping | pairs | orderedMapping | set | merge | value | unknown => cases h

namespace Node

/-! ### Collections -/

variable {ns : List Node} {es : List (Node × Node)}

theorem part_key (kind : Kind) (k v : Node) : Part k (mapping kind [(k, v)]) :=
  .single (@Child.key kind [(k, v)] (k, v) List.mem_cons_self)

theorem part_value (kind : Kind) (k v : Node) : Part v (mapping kind [(k, v)]) :=
  .single (@Child.value kind [(k, v)] (k, v) List.mem_cons_self)

theorem blames_values (h : ∀ n ∈ ns, Blames C n.value) : Blames C (values ns) := by
  induction ns with
  | nil =>
    rw [values]
    exact blames_ok []
  | cons n ns ih =>
    obtain ⟨hn, hns⟩ := List.forall_mem_cons.1 h
    rw [values]
    exact (hn.both (ih hns)).map _

theorem blames_merged (h : ∀ e ∈ es, Blames C e.2.given) : Blames C (merged es) := by
  induction es with
  | nil =>
    rw [merged]
    exact blames_ok []
  | cons e es ih =>
    obtain ⟨he, hes⟩ := List.forall_mem_cons.1 h
    rw [merged]
    split
    · exact (he.both (ih hes)).map _
    · exact ih hes

theorem blames_givenByAll (h : ∀ n ∈ ns, Blames C n.given) : Blames C (givenByAll ns) := by
  induction ns with
  | nil =>
    rw [givenByAll]
    exact blames_ok []
  | cons n ns ih =>
    obtain ⟨hn, hns⟩ := List.forall_mem_cons.1 h
    rw [givenByAll]
    exact ((ih hns).both hn).map _

/-- What the keys and values of a mapping may be blamed for. -/
structure EntriesBlame (C : Cause → Prop) (es : List (Node × Node)) : Prop where
  malformed : C .malformed
  key : ∀ e ∈ es, Blames C e.1.key
  value : ∀ e ∈ es, Blames C e.2.value
  given : ∀ e ∈ es, Blames C e.2.given
  compound : ∀ e ∈ es, ∀ key, e.1.key = .ok key → key.isFixed = false → C .compoundKey

theorem blames_own (h : EntriesBlame C es) (differ : Bool) (seen : List Value) :
    Blames C (own differ seen es) := by
  induction es generalizing seen with
  | nil =>
    rw [own]
    exact blames_ok []
  | cons e es ih =>
    have hes : EntriesBlame C es :=
      { malformed := h.malformed
        key := (List.forall_mem_cons.1 h.key).2
        value := (List.forall_mem_cons.1 h.value).2
        given := (List.forall_mem_cons.1 h.given).2
        compound := (List.forall_mem_cons.1 h.compound).2 }
    rw [own]
    split
    · exact ih hes seen
    · cases hk : e.1.key with
      | error f => exact blames_fault (h.key e List.mem_cons_self f hk)
      | ok key =>
        dsimp only
        split
        · exact blames_fault h.malformed
        · apply Blames.map
          apply (h.value e List.mem_cons_self).both
          rw [checkKey]
          cases hf : key.isFixed with
          | false => exact blames_fault (h.compound e List.mem_cons_self key hk hf)
          | true =>
            rw [if_pos rfl]
            dsimp only
            split
            · exact blames_fault h.malformed
            · exact ih hes _

theorem blames_entryValues (h : EntriesBlame C es) : Blames C (entryValues es) := by
  have hm : Blames C (merged es) := blames_merged h.given
  rw [entryValues]
  split
  · exact blames_fault h.malformed
  · split
    · exact blames_own h true []
    · exact (hm.both (blames_own h false [])).map _

theorem blames_pairValues (hm : C .malformed) (h : ∀ n ∈ ns, ∀ m, Part m n → Blames C m.value) :
    Blames C (pairValues ns) := by
  induction ns with
  | nil =>
    rw [pairValues]
    exact blames_ok []
  | cons n ns ih =>
    obtain ⟨hn, hns⟩ := List.forall_mem_cons.1 h
    have pair : ∀ k v, Part k n → Part v n →
        Blames C (both k.value (both v.value (pairValues ns))) := fun k v hk hv =>
      (hn k hk).both ((hn v hv).both (ih hns))
    unfold pairValues
    split
    · next kind k v =>
      exact (pair k v (part_key kind k v) (part_value kind k v)).map _
    · next kind k v =>
      exact (pair k v ((part_key kind k v).tail .again) ((part_value kind k v).tail .again)).map _
    · exact blames_fault hm

theorem blames_orderedValues (hm : C .malformed) (hc : C .compoundKey) (hr : C .repeatedKey)
    (h : ∀ n ∈ ns, ∀ m, Part m n → Blames C m.value) (seen : List Value) :
    Blames C (orderedValues seen ns) := by
  induction ns generalizing seen with
  | nil =>
    rw [orderedValues]
    exact blames_ok []
  | cons n ns ih =>
    obtain ⟨hn, hns⟩ := List.forall_mem_cons.1 h
    have pair : ∀ kind k v, Part k n → Part v n →
        Blames C (orderedValues seen (mapping kind [(k, v)] :: ns)) := by
      intro kind k v hk hv
      unfold orderedValues
      dsimp only
      split
      · next c he => exact blames_fault (hn k hk _ he)
      · exact blames_fault hc
      · split
        · exact blames_fault hc
        · split
          · exact blames_fault hr
          · exact ((hn v hv).both (ih hns _)).map _
    unfold orderedValues at pair ⊢
    split
    · next kind k v => exact pair kind k v (part_key kind k v) (part_value kind k v)
    · next kind k v =>
      exact pair kind k v ((part_key kind k v).tail .again) ((part_value kind k v).tail .again)
    · exact blames_fault hm

/-! ### Whole trees -/

def isScalar : Node → Bool
  | scalar .. => true
  | _ => false

/-- Why a node stands for no data. -/
inductive Flaw (n : Node) : Cause → Prop where
  | malformed : Flaw n .malformed
  | scalar {m : Node} {w : Wording} {f : Fault} : Part m n → m.wording? = some w →
    scalarValue m.kind w = .error f → Flaw n f.cause
  | compoundKey {kind : Kind} {es : List (Node × Node)} {e : Node × Node} :
    Part (mapping kind es) n → e ∈ es → e.1.isScalar = false → Flaw n .compoundKey
  | orderedKey {m : Node} {c : Cause} : Part m n → m.kind = .orderedMapping →
    c = .compoundKey ∨ c = .repeatedKey → Flaw n c

/-- Whatever is made of a node, some causes are to blame if it is not. -/
structure Sound (C : Cause → Prop) (n : Node) : Prop where
  value : Blames C n.value
  key : Blames C n.key
  given : Blames C n.given

variable {root n : Node} {kind : Kind}

theorem blames_asScalar (hp : Part n root) : Blames (Flaw root) (asScalar n) := by
  unfold asScalar
  split
  · exact blames_fault .malformed
  · next w hw _ => exact fun f hf => .scalar hp hw hf
  · exact blames_fault .malformed

theorem wording?_scalar (kind : Kind) (w : Wording) : (scalar kind w).wording? = some w := by
  rw [wording?]

theorem sound_scalar (hp : Part (scalar kind w) root) : Sound (Flaw root) (scalar kind w) where
  value := by
    rw [value]
    exact fun f hf => .scalar hp (wording?_scalar kind w) hf
  key := by
    rw [key]
    split
    · exact blames_ok _
    · exact fun f hf => .scalar hp (wording?_scalar kind w) hf
  given := by
    unfold given
    exact blames_fault .malformed

/-- A collection as a key is what it is as a value. -/
theorem blames_key (hn : n.isScalar = false) (h : Blames C n.value) : Blames C n.key := by
  unfold key
  split
  · cases hn
  · exact h.map _

theorem blames_sequence (hp : Part (sequence kind ns) root)
    (h : ∀ n ∈ ns, ∀ m, Part m n → Blames (Flaw root) m.value) :
    Blames (Flaw root) (sequence kind ns).value := by
  unfold value
  cases kind with
  | sequence => exact ((blames_values fun n hn => h n hn n .refl).map _).deeper
  | pairs => exact ((blames_pairValues .malformed h).map _).deeper
  | orderedMapping =>
    have hc : ∀ c, c = .compoundKey ∨ c = .repeatedKey → Flaw root c := fun c =>
      .orderedKey hp rfl
    exact ((blames_orderedValues .malformed (hc _ (.inl rfl)) (hc _ (.inr rfl)) h []).map _).deeper
  | mapping | set => exact blames_error .malformed
  | text | int | float | bool | null | stamp | octets | merge | value | unknown =>
    exact blames_fault .malformed

theorem entriesBlame (hp : Part (mapping kind es) root)
    (hk : ∀ e ∈ es, Sound (Flaw root) e.1) (hv : ∀ e ∈ es, Sound (Flaw root) e.2) :
    EntriesBlame (Flaw root) es where
  malformed := .malformed
  key e he := (hk e he).key
  value e he := (hv e he).value
  given e he := (hv e he).given
  compound e he a ha hf := by
    apply Flaw.compoundKey hp he
    cases hs : e.1 with
    | scalar kind w =>
      rw [hs, key] at ha
      rw [scalarValue_fixed ha] at hf
      cases hf
    | sequence | mapping | reference | anchored | again => rfl

theorem blames_mapping (hp : Part (mapping kind es) root) (h : EntriesBlame (Flaw root) es) :
    Blames (Flaw root) (mapping kind es).value := by
  unfold value
  cases kind with
  | mapping => exact ((blames_entryValues h).map _).deeper
  | set => exact ((blames_entryValues h).map _).deeper
  | sequence | pairs | orderedMapping => exact blames_error .malformed
  | text | int | float | bool | null | stamp | octets | merge | value | unknown =>
    exact blames_asScalar hp

theorem sound_of_part (n : Node) (hp : Part n root) : Sound (Flaw root) n := by
  induction n using child_wellFounded.transGen.induction with
  | _ n ih =>
    have hchild : ∀ m, Child m n → Sound (Flaw root) m := fun m hm =>
      ih m (.single hm) (.head hm hp)
    cases n with
    | scalar kind w => exact sound_scalar hp
    | sequence kind ns =>
      have hv := blames_sequence hp fun n hn m hm =>
        (ih m (.tail' hm (.item hn)) (hm.trans (.head (.item hn) hp))).value
      refine ⟨hv, blames_key rfl hv, ?_⟩
      rw [given]
      exact blames_givenByAll fun n hn => (hchild n (.item hn)).given
    | mapping kind es =>
      have he := entriesBlame hp (fun e he => hchild e.1 (.key he)) fun e he =>
        hchild e.2 (.value he)
      have hv := blames_mapping hp he
      refine ⟨hv, blames_key rfl hv, ?_⟩
      rw [given]
      exact ((blames_merged he.given).both (blames_own he false [])).map _
    | reference a =>
      have hv : Blames (Flaw root) (reference a).value := by
        rw [value]
        exact blames_fault .malformed
      refine ⟨hv, blames_key rfl hv, ?_⟩
      unfold given
      exact blames_fault .malformed
    | anchored a n =>
      have hv : Blames (Flaw root) (anchored a n).value := by
        rw [value]
        exact blames_fault .malformed
      refine ⟨hv, blames_key rfl hv, ?_⟩
      unfold given
      exact blames_fault .malformed
    | again n =>
      have hn := hchild n .again
      have hv : Blames (Flaw root) (again n).value := by
        rw [value]
        exact hn.value.map _
      refine ⟨hv, blames_key rfl hv, ?_⟩
      rw [given]
      exact hn.given

/-- A tree stands for data, or has a flaw. -/
theorem blames_value (n : Node) : Blames (Flaw n) n.value := (sound_of_part n .refl).value

end Node

end Relief.Yaml
