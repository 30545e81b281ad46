import Mathlib
import Relief.Document
import Relief.Proofs.Outcome
import Relief.Proofs.Yaml.Flaw
import Relief.Proofs.Yaml.Steps

/-!
Texts that are no workspace documents. An error has words for most of them. The others have something in
them that stops the reading itself, or what is looked at before their fields are.
-/
namespace Relief.Document

open Relief.Yaml (Kind Node Wording)

variable {text : String} {e : Error} {es : Schema.Entries}

/-- The outermost mapping of a text has some entries. -/
def HasEntries (text : String) (es : Schema.Entries) : Prop :=
  Yaml.read text = .ok (some (.map es)) ∨ Yaml.read text = .ok (some (.orderedMap es))

/-- The errors without words, and what a text has for each of them. -/
inductive Escapes (text : String) : Error → Prop where
  /-- Something in the text itself stops its reader. -/
  | characters {c : Yaml.Cause} : Yaml.parse text = .error c → Yaml.Origin text.toList c →
    c ≠ .malformed → Escapes text (.unreadable c)
  /-- A scalar has the form of a number, a date or a truth value, and stands for none. -/
  | scalar {n m : Node} {w : Wording} {f : Yaml.Fault} : Yaml.parse text = .ok (some n) →
    m.Part n → m.wording? = some w → Yaml.scalarValue m.kind w = .error f →
    '!' ∈ text.toList ∨ (∃ v, m.kind = .ofPlain v w.string) → f.cause ≠ .malformed →
    Escapes text (.unreadable f.cause)
  /-- A key has a collection in it. -/
  | compoundKey {n : Node} {kind : Kind} {es : List (Node × Node)} {e : Node × Node} :
    Yaml.parse text = .ok (some n) → (Node.mapping kind es).Part n → e ∈ es →
    e.1.isScalar = false → Escapes text (.unreadable .compoundKey)
  /-- A mapping is tagged as an ordered one. -/
  | orderedKey {n m : Node} {c : Yaml.Cause} : Yaml.parse text = .ok (some n) → m.Part n →
    m.kind = .orderedMapping → '!' ∈ text.toList → c = .compoundKey ∨ c = .repeatedKey →
    Escapes text (.unreadable c)
  /-- The version has a whole number in it that is too long. -/
  | unwritable {es : Schema.Entries} {e : Value × Value} :
    HasEntries text es → e ∈ es → Schema.isNamed "version" e = true → e.2.isWritable = false →
    Escapes text .unwritable
  /-- A field's name is no text. -/
  | nameType {es : Schema.Entries} {e : Value × Value} :
    HasEntries text es → e ∈ es → isText e.1 = false → Escapes text .nameType

/-- An error has words, or what a text has for errors without them. -/
def Tells (text : String) (e : Error) : Prop := (∃ s, e.message? = some s) ∨ Escapes text e

/-! ### The data of a text -/

/-- A scalar without a tag that stands for nothing is plain. -/
theorem plain_of_fits {cs : List Char} {m : Node} {w : Wording} {f : Yaml.Fault} (h : m.Fits cs)
    (hw : m.wording? = some w) (hv : Yaml.scalarValue m.kind w = .error f)
    (hc : f.cause ≠ .malformed) : '!' ∈ cs ∨ ∃ v, m.kind = .ofPlain v w.string := by
  induction h with
  | tagged he => exact .inl he
  | scalar v plain w' =>
    rw [Node.wording?_scalar] at hw
    cases hw
    cases plain with
    | true => exact .inr ⟨v, rfl⟩
    | false => cases hv
  | sequence _ _ =>
    cases hv
    exact absurd rfl hc
  | mapping _ _ _ _ =>
    cases hv
    exact absurd rfl hc
  | reference a =>
    cases hv
    exact absurd rfl hc
  | anchored a _ _ =>
    unfold Node.wording? at hw
    cases hw
  | again _ ih =>
    rw [Node.wording?] at hw
    exact ih hw hv

theorem ofPlain_ne_orderedMapping (v : Yaml.Version) (s : String) :
    Kind.ofPlain v s ≠ .orderedMapping := by
  unfold Kind.ofPlain
  dsimp only
  split_ifs <;> simp

/-- An ordered mapping has a tag. -/
theorem tagged_of_orderedMapping {cs : List Char} {m : Node} (h : m.Fits cs)
    (hm : m.kind = .orderedMapping) : '!' ∈ cs := by
  induction h with
  | tagged he => exact he
  | scalar v plain w =>
    cases plain with
    | true => exact absurd hm (ofPlain_ne_orderedMapping v w.string)
    | false => cases hm
  | sequence _ _ => cases hm
  | mapping _ _ _ _ => cases hm
  | reference a => cases hm
  | anchored a _ ih => exact ih hm
  | again _ ih => exact ih hm

theorem escapes_of_flaw {n : Node} {c : Yaml.Cause} (hn : Yaml.parse text = .ok (some n))
    (hf : n.Fits text.toList) (h : n.Flaw c) (hc : c ≠ .malformed) :
    Escapes text (.unreadable c) := by
  cases h with
  | malformed => exact absurd rfl hc
  | scalar hp hw hv => exact .scalar hn hp hw hv (plain_of_fits (hf.part hp) hw hv hc) hc
  | compoundKey hp he hk => exact .compoundKey hn hp he hk
  | orderedKey hp hm hc' =>
    exact .orderedKey hn hp hm (tagged_of_orderedMapping (hf.part hp) hm) hc'

/-- What keeps the data of a text from being read has words, or is something that the text has. -/
theorem tells_unreadable {c : Yaml.Cause} (h : Yaml.read text = .error c) :
    Tells text (.unreadable c) := by
  by_cases hc : c = .malformed
  · rw [hc]
    exact .inl ⟨_, rfl⟩
  · right
    have hends := Yaml.parse_ends text
    rw [Yaml.read, bind_eq_error_iff] at h
    obtain h | ⟨found, hn, h⟩ := h
    · rw [h] at hends
      exact .characters h hends hc
    · rw [hn] at hends
      cases found with
      | none => cases h
      | some n =>
        have hfits : n.Fits text.toList := hends n rfl
        dsimp only at h
        split at h
        · cases h
        · next f hv =>
          cases h
          exact escapes_of_flaw hn hfits (Node.blames_value n f hv) hc

/-! ### The version and the names of fields -/

theorem checkVersion_tells {version : String} (h : checkVersion version = .error e) :
    ∃ s, e.message? = some s := by
  unfold checkVersion at h
  dsimp only at h
  split at h
  · cases h
    exact ⟨_, rfl⟩
  · split at h
    · cases h
    · cases h
      exact ⟨_, rfl⟩

/-- Whatever is wrong with a version has words, but a number in it that is too long. -/
theorem versionText_tells {v : Value} (h : versionText v = .error e) :
    (∃ s, e.message? = some s) ∨ e = .unwritable ∧ v.isWritable = false := by
  unfold versionText at h
  split at h
  · cases h
    exact .inl ⟨_, rfl⟩
  · split at h
    · next hw =>
      cases h
      exact .inr ⟨rfl, by simpa using hw⟩
    · exact .inl (checkVersion_tells (map_eq_error_iff.1 h))

theorem withVersion_tells (h : withVersion es = .error e) :
    (∃ s, e.message? = some s) ∨
      e = .unwritable ∧ ∃ p ∈ es, Schema.isNamed "version" p = true ∧ p.2.isWritable = false := by
  unfold withVersion at h
  split at h
  · cases h
  · cases h
  · next k v _ hfind =>
    apply (versionText_tells (map_eq_error_iff.1 h)).imp_right
    rintro ⟨he, hw⟩
    exact ⟨he, (k, v), List.mem_of_find?_eq_some hfind, List.find?_some hfind, hw⟩

/-- The fields' names stay what they are. -/
theorem withVersion_names {es' : Schema.Entries} (h : withVersion es = .ok es') :
    es'.map Prod.fst = es.map Prod.fst := by
  unfold withVersion at h
  split at h
  · cases h
    rfl
  · cases h
    rfl
  · obtain ⟨s, -, rfl⟩ := map_eq_ok_iff.1 h
    rw [List.map_map]
    apply List.map_congr_left
    intro e _
    change (if _ then _ else _ : Value × Value).1 = e.1
    split
    · rfl
    · rfl

theorem openedEntries_names (es : Schema.Entries) :
    (Value.openedEntries es).map Prod.fst = es.map Prod.fst := by
  induction es with
  | nil => rfl
  | cons e es ih => rw [Value.openedEntries, List.map_cons, List.map_cons, ih]

theorem mapping_tells (hes : HasEntries text es)
    (h : (withVersion es).map Value.openedEntries = .error e) : Tells text e := by
  obtain hs | ⟨rfl, p, hp, hname, hw⟩ := withVersion_tells (map_eq_error_iff.1 h)
  · exact .inl hs
  · exact .inr (.unwritable hes hp hname hw)

theorem mapping_names {es' : Schema.Entries}
    (h : (withVersion es).map Value.openedEntries = .ok es') :
    es'.map Prod.fst = es.map Prod.fst := by
  obtain ⟨es'', hv, rfl⟩ := map_eq_ok_iff.1 h
  exact (openedEntries_names es'').trans (withVersion_names hv)

theorem readEntries_tells (h : readEntries text = .error e) : Tells text e := by
  unfold readEntries at h
  split at h
  · next c hy =>
    cases h
    exact tells_unreadable hy
  · next es hy => exact mapping_tells (.inl hy) h
  · next es hy => exact mapping_tells (.inr hy) h
  · cases h
    exact .inl ⟨_, rfl⟩

/-- The entries of a text have the names that they are written with. -/
theorem readEntries_names {es' : Schema.Entries} (h : readEntries text = .ok es') :
    ∃ es, HasEntries text es ∧ es'.map Prod.fst = es.map Prod.fst := by
  unfold readEntries at h
  split at h
  · cases h
  · next es hy => exact ⟨es, .inl hy, mapping_names h⟩
  · next es hy => exact ⟨es, .inr hy, mapping_names h⟩
  · cases h

/-! ### Whole documents -/

theorem nameType_tells {es' : Schema.Entries} (h : readEntries text = .ok es')
    (hn : (es'.all fun e => isText e.1) = false) : Escapes text .nameType := by
  obtain ⟨es, hes, hnames⟩ := readEntries_names h
  obtain ⟨e', he', ht⟩ := List.all_eq_false.1 hn
  have hm : e'.1 ∈ es.map Prod.fst := hnames ▸ List.mem_map_of_mem he'
  obtain ⟨e, he, hfst⟩ := List.mem_map.1 hm
  apply Escapes.nameType hes he
  rw [hfst]
  simpa using ht

/-- A text is read as a workspace, or there is an error with words for it, or something in the text
escapes them. -/
theorem read_unless_escaped (text : String) :
    (∃ spec, read text = .ok spec) ∨
      ∃ e, read text = .error e ∧ ((∃ s, e.message? = some s) ∨ Escapes text e) := by
  cases hread : read text with
  | ok spec => exact .inl ⟨spec, rfl⟩
  | error e =>
    refine .inr ⟨e, rfl, ?_⟩
    rw [read, bind_eq_error_iff] at hread
    obtain hr | ⟨es', hr, h⟩ := hread
    · exact readEntries_tells hr
    · dsimp only at h
      split at h
      · next hn =>
        cases h
        exact .inr (nameType_tells hr (by simpa using hn))
      · split at h
        · cases h
        · cases h
          exact .inl ⟨_, rfl⟩

/-- A field with a number for its name is refused without words. -/
theorem read_numberName : ¬ ((∃ spec, read "1:" = .ok spec) ∨
    ∃ e s, read "1:" = .error e ∧ e.message? = some s) := by
  have hr : read "1:" = .error .nameType := by cbv
  rw [hr]
  rintro (⟨spec, h⟩ | ⟨e, s, h, hs⟩)
  · cases h
  · cases h
    cases hs

end Relief.Document
