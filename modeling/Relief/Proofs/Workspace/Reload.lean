import Mathlib
import Relief.Proofs.Workspace.Rebuild
import Relief.Proofs.Yaml.Json

/-!
The text of a workspace is read back as the workspace, as long as reading leaves its expressions alone.
-/
namespace Relief

open Relief.Number Relief.Format Relief.Yaml

/-! ### Colors -/

namespace Color

theorem toNat_le_of_isHexDigit {c : Char} (h : isHexDigit c = true) : c.toNat ≤ 102 := by
  by_contra hgt
  have h1 : ¬ (48 ≤ c.toNat ∧ c.toNat ≤ 57) := by omega
  have h2 : ¬ (97 ≤ c.toNat ∧ c.toNat ≤ 102) := by omega
  have h3 : ¬ (65 ≤ c.toNat ∧ c.toNat ≤ 70) := by omega
  rw [isHexDigit, digitIn?] at h
  simp only [h1, h2, h3, if_false, Nat.lt_irrefl] at h
  cases h

/-- What holds of each of the digits, one by one. -/
theorem of_isHexDigit {P : Char → Prop} {c : Char}
    (hall : ∀ n ≤ 102, isHexDigit (Char.ofNat n) = true → P (Char.ofNat n)) (h : isHexDigit c = true) :
    P c := by
  have hc := hall c.toNat (toNat_le_of_isHexDigit h)
  rw [Char.ofNat_toNat] at hc
  exact hc h

theorem isHexDigit_toLower {c : Char} (h : isHexDigit c = true) : isHexDigit c.toLower = true :=
  of_isHexDigit (P := fun c => isHexDigit c.toLower = true) (by decide) h

/-- The characters of a color's text. -/
theorem isHexText_iff {s : String} : isHexText s = true ↔ ∃ ds rest, s.toList = '#' :: (ds ++ rest) ∧
    ds.length = 6 ∧ (∀ c ∈ ds, isHexDigit c = true) ∧ (rest = [] ∨ rest = ['\n']) := by
  constructor
  · intro h
    unfold isHexText at h
    split at h
    · next cs hs =>
      simp only [Bool.and_eq_true, Bool.or_eq_true, beq_iff_eq, List.all_eq_true] at h
      exact ⟨cs.take 6, cs.drop 6, by rw [hs, List.take_append_drop], h.1.1, h.1.2, h.2⟩
    · cases h
  · rintro ⟨ds, rest, hs, hl, hd, hr⟩
    have ht : (ds ++ rest).take 6 = ds := by rw [← hl, List.take_left]
    have hd' : (ds ++ rest).drop 6 = rest := by rw [← hl, List.drop_left]
    rw [isHexText, hs]
    change ((((ds ++ rest).take 6).length == 6 && ((ds ++ rest).take 6).all isHexDigit) &&
      ((ds ++ rest).drop 6 == [] || (ds ++ rest).drop 6 == ['\n'])) = true
    rw [ht, hd', hl, List.all_eq_true.2 hd]
    obtain rfl | rfl := hr <;> rfl

theorem isHexText_toLower {s : String} (h : isHexText s = true) : isHexText s.toLower = true := by
  obtain ⟨ds, rest, hs, hl, hd, hr⟩ := isHexText_iff.1 h
  refine isHexText_iff.2 ⟨ds.map Char.toLower, rest, ?_, by rw [List.length_map, hl], ?_, hr⟩
  · rw [String.toLower, String.toList_map, hs, List.map_cons, List.map_append]
    obtain rfl | rfl := hr <;> rfl
  · intro c hc
    obtain ⟨b, hb, rfl⟩ := List.mem_map.1 hc
    exact isHexDigit_toLower (hd b hb)

theorem kept_of_isHexText {s : String} (h : isHexText s = true) : Kept s.toList := by
  obtain ⟨ds, rest, hs, -, hd, hr⟩ := isHexText_iff.1 h
  rw [hs]
  apply Kept.of_ascii
  simp only [List.mem_cons, List.mem_append]
  rintro c (rfl | hc | hc)
  · decide
  · exact Nat.le_trans (toNat_le_of_isHexDigit (hd c hc)) (by decide)
  · obtain rfl | rfl := hr
    · cases hc
    · rw [List.mem_singleton.1 hc]
      decide

end Color

namespace Schema

/-- A color that has been checked is one that documents may have, in lower case. -/
theorem readColorText_eq_ok {s c : String} (h : readColorText s = .ok c) :
    Color.isHexText c = true ∧ c.toLower = c := by
  rw [readColorText] at h
  split at h
  · next hs =>
    obtain rfl := Except.ok.inj h
    refine ⟨Color.isHexText_toLower hs, ?_⟩
    rw [String.toLower, String.toLower, ← String.toList_inj, String.toList_map, String.toList_map,
      List.map_map]
    exact List.map_congr_left fun c _ => Char.toLower_toLower_eq_toLower c
  · cases h

theorem readColorText_palette (id : Nat) :
    readColorText (paletteColor id) = .ok (paletteColor id) := by
  have hall : ∀ s ∈ palette.toList, Color.isHexText s = true ∧
      (s.toList.all fun c => c.toLower == c) = true := by decide
  obtain ⟨hs, hl⟩ := hall (paletteColor id) (by rw [paletteColor]; simp)
  have hlower := toLower_ofList fun c hc => beq_iff_eq.1 (List.all_eq_true.1 hl c hc)
  rw [String.ofList_toList] at hlower
  rw [readColorText, if_pos hs, hlower]

end Schema

/-- The expression, the color and the visibility of an equation, all that a document says of it. -/
def Equation.said (e : Equation) : String × String × Bool := (e.expression, e.color, e.visible)

namespace Workspace

variable {w : Workspace} {e : Equation} {level : Nat}

/-! ### What a document says -/

/-- The fields of an equation, and what stands behind them. -/
def equationMembers (e : Equation) : List (String × Value) :=
  [("expression", .text e.expression), ("color", .text e.color), ("visible", .bool e.visible)]

def domainMembers (d : Domain Float) : List (String × Value) :=
  [("xmin", .float d.xmin), ("xmax", .float d.xmax), ("ymin", .float d.ymin),
    ("ymax", .float d.ymax), ("resolution", .int d.resolution)]

def members (w : Workspace) : List (String × Value) :=
  [("equations", .list (w.equations.map fun e => .map (named (equationMembers e)))),
    ("settings", .map (named (domainMembers w.domain)))]

theorem stands_member {name : String} {j : Json} {v : Value} {d : Nat}
    (h : (name.toList.all fun c => decide (c.toNat ≤ 0x7E)) = true)
    (hl : (Json.textChars false name).length ≤ Stream.maxKeyLength)
    (hs : Stands d (j.chars plainStyle level) v) : StandsMember d level (name, j) (name, v) :=
  ⟨rfl, .of_ascii h hl, hs⟩

theorem equation_stands (h : Kept e.expression.toList) (hc : Color.isHexText e.color = true) :
    StandsItem 1 ((equationJson e).chars plainStyle level) (.map (named (equationMembers e))) := by
  have hm : List.Forall₂ (StandsMember 0 (level + 1))
      [("expression", Json.text e.expression), ("color", .text e.color), ("visible", .bool e.visible)]
      (equationMembers e) :=
    .cons (stands_member (by decide) (by decide) (stands_text h _))
      (.cons (stands_member (by decide) (by decide) (stands_text (Color.kept_of_isHexText hc) _))
        (.cons (stands_member (by decide) (by decide) (stands_bool _ _)) .nil))
  have hd : ((equationMembers e).map Prod.fst).Nodup := by
    simp [equationMembers]
  exact (stands_object hm (List.cons_ne_nil _ _) hd).2

theorem domain_stands {d : Domain Float} (h : (Nat.toDigits 10 d.resolution).length ≤ maxDigits) :
    Stands 1 ((domainJson d).chars plainStyle level) (.map (named (domainMembers d))) := by
  have hm : List.Forall₂ (StandsMember 0 (level + 1))
      [("xmin", Json.float d.xmin), ("xmax", .float d.xmax), ("ymin", .float d.ymin),
        ("ymax", .float d.ymax), ("resolution", .int d.resolution)] (domainMembers d) :=
    .cons (stands_member (by decide) (by decide) (stands_float d.x_finite.1 _))
      (.cons (stands_member (by decide) (by decide) (stands_float d.x_finite.2 _))
        (.cons (stands_member (by decide) (by decide) (stands_float d.y_finite.1 _))
          (.cons (stands_member (by decide) (by decide) (stands_float d.y_finite.2 _))
            (.cons (stands_member (by decide) (by decide) (stands_nat h _)) .nil))))
  have hd : ((domainMembers d).map Prod.fst).Nodup := by
    simp [domainMembers]
  exact (stands_object hm (List.cons_ne_nil _ _) hd).1

/-- The text of a workspace is read as its equations and its domain. -/
theorem read_document (he : ∀ e ∈ w.equations, Kept e.expression.toList)
    (hc : ∀ e ∈ w.equations, Color.isHexText e.color = true)
    (hr : (Nat.toDigits 10 w.domain.resolution).length ≤ maxDigits) :
    Yaml.read w.document = .ok (some (.map (named (members w)))) := by
  have hl : List.Forall₂ (fun j v => StandsItem 1 (j.chars plainStyle 2) v)
      (w.equations.map equationJson)
      (w.equations.map fun e => .map (named (equationMembers e))) := by
    rw [List.forall₂_map_left_iff, List.forall₂_map_right_iff]
    exact List.forall₂_same.2 fun e hm => equation_stands (he e hm) (hc e hm)
  have hm : List.Forall₂ (StandsMember 2 1)
      [("equations", Json.list (w.equations.map equationJson)), ("settings", domainJson w.domain)]
      (members w) :=
    .cons (stands_member (by decide) (by decide) (stands_list hl))
      (.cons (stands_member (by decide) (by decide) ((domain_stands hr).mono one_le_two)) .nil)
  have hd : ((members w).map Prod.fst).Nodup := by
    simp [members]
  exact read_object hm (List.cons_ne_nil _ _) hd (by decide)

theorem readCount_nat {n : Nat} (h : 0 < n) : Schema.readCount (.int n) = .ok ⟨n, h⟩ := by
  have hn : Schema.readInt (.int n) = .ok (n : Int) := rfl
  have hp : 0 < (n : Int).toNat := h
  rw [Schema.readCount, hn]
  exact dif_pos hp

theorem readDomain_members (d : Domain Float) :
    Schema.readDomain (.map (named (domainMembers d))) = .ok d := by
  have hn := readCount_nat d.resolution_pos
  have hb := d.ofBounds_self
  simp [Schema.readDomain, Schema.entriesOf, named, domainMembers, Schema.checkNames,
    Schema.domainOfEntries, Schema.field, Schema.isNamed, Schema.under, Schema.readFloat,
    Schema.readWords, Schema.issuesOf, Schema.unknownFields, Schema.domainFields, bind, Except.bind,
    hn, hb]

theorem readEquation_members (h : Color.isHexText e.color = true) :
    Schema.readEquation (.map (named (equationMembers e))) = .ok e.spec := specOfEquation_eq h

theorem readItems_members {es : List Equation} (h : ∀ e ∈ es, Color.isHexText e.color = true)
    (n : Nat) : Schema.readItems Schema.readEquation n
      (es.map fun e => .map (named (equationMembers e))) = .ok (es.map Equation.spec) := by
  induction es generalizing n with
  | nil => rfl
  | cons e es ih =>
    obtain ⟨he, hes⟩ := List.forall_mem_cons.1 h
    rw [List.map_cons, Schema.readItems, readEquation_members he, ih hes]
    rfl

theorem opened_members (es : List Equation) :
    Value.openedItems (es.map fun e => .map (named (equationMembers e))) =
      es.map fun e => .map (named (equationMembers e)) := by
  induction es with
  | nil => rfl
  | cons e es ih =>
    have he : (Value.map (named (equationMembers e))).opened = .map (named (equationMembers e)) := rfl
    rw [List.map_cons, Value.openedItems, he, ih]

/-- What a document of a workspace says, read back. The mode is not in it. -/
theorem document_read (he : ∀ e ∈ w.equations, Kept e.expression.toList)
    (hc : ∀ e ∈ w.equations, Color.isHexText e.color = true)
    (hr : (Nat.toDigits 10 w.domain.resolution).length ≤ maxDigits) :
    Document.read w.document =
      .ok ⟨Schema.standardVersion, .solid, w.domain, w.equations.map Equation.spec⟩ := by
  have hopened : Value.openedEntries (named (members w)) = named (members w) := by
    have hd : Value.openedEntries (named (domainMembers w.domain)) = named (domainMembers w.domain) :=
      rfl
    change [(Value.text "equations", Value.list (Value.openedItems _)),
      (.text "settings", .map (Value.openedEntries _))] = _
    rw [opened_members, hd]
    rfl
  have hentries : Document.readEntries w.document = .ok (named (members w)) := by
    rw [Document.readEntries, read_document he hc hr]
    change Except.ok (Value.openedEntries (named (members w))) = _
    rw [hopened]
  have hspec : Schema.workspaceOfEntries (named (members w)) =
      .ok ⟨Schema.standardVersion, .solid, w.domain, w.equations.map Equation.spec⟩ := by
    have hsettings : Schema.field (named (members w)) "settings" Domain.standard Schema.readDomain =
        .ok w.domain := congrArg (Schema.under _) (readDomain_members w.domain)
    have hequations : Schema.field (named (members w)) "equations" [] Schema.readEquations =
        .ok (w.equations.map Equation.spec) := congrArg (Schema.under _) (readItems_members hc 0)
    rw [Schema.workspaceOfEntries, hsettings, hequations]
    rfl
  have hnames : Schema.checkNames (named (members w)) = .ok (named (members w)) := rfl
  have htexts : (!(named (members w)).all fun e => Document.isText e.1) = false := rfl
  simp only [Document.read, hentries, hnames, htexts, hspec, bind, Except.bind]
  rfl

/-! ### Making it again -/

/-- What a document keeps of an equation is the same. -/
structure Restored (e e' : Equation) : Prop where
  expression : e'.expression = e.expression
  color : e'.color = e.color
  visible : e'.visible = e.visible

theorem remake_frame {e' : Equation} {id : Nat} {d : Domain Float} (h : remake e id d = .ok e') :
    e'.expression = e.expression ∧ e'.color = e.color.toLower ∧ e'.visible = e.visible := by
  rw [remake] at h
  split at h
  · exact (Equation.redraw_frame h).2
  · rw [← Except.ok.inj h]
    exact ⟨rfl, rfl, rfl⟩

/-- A settled equation can be made again, whether or not its text is refused. -/
theorem remake_settled {d : Domain Float} (h : e.Settled d) (hs : e.Sound) (id : Nat) :
    ∃ e', remake e id d = .ok e' := by
  cases hn : e.rejection with
  | none =>
    obtain ⟨e', he, -⟩ := redone h hs (fun _ => hn) id
    exact ⟨e', he⟩
  | some r =>
    -- A refused text is not blank, so it is looked at and refused again.
    let new := undrawn id e.expression e.color.toLower e.visible
    have hb : new.isBlank = false := by
      by_contra hb
      have hnone := (hs.blank (Bool.of_not_eq_false hb)).2.2
      rw [hn] at hnone
      cases hnone
    rw [remake]
    by_cases hv : e.visible = true
    · exact ⟨_, (if_pos hv).trans (Equation.redraw_of_rejected hb (hs.rejected r hn))⟩
    · exact ⟨new, if_neg hv⟩

/-- The equations of a settled workspace are made again one by one, in any mode. -/
theorem ofSpec_restored (hw : Settled w) (hs : Consistent w)
    (hc : ∀ e ∈ w.equations, e.color.toLower = e.color) (mode : Color.Mode) :
    ∃ w', ofSpec ⟨Schema.standardVersion, mode, w.domain, w.equations.map Equation.spec⟩ = .ok w' ∧
      w'.domain = w.domain ∧ List.Forall₂ Restored w.equations w'.equations := by
  have hv : Ordered (empty w.domain mode) := (consistent_empty _ _).ordered
  obtain ⟨es', w', hp, hd, he, hf⟩ := perform_adds (R := Restored) hv w.equations fun e he id => by
    obtain ⟨e', hm⟩ := remake_settled (hw e he) (hs.sound e he) id
    obtain ⟨h1, h2, h3⟩ := remake_frame hm
    exact ⟨e', hm, h1, h2.trans (hc e he), h3⟩
  have he : w'.equations = es' := he
  have hm : makeFrom ⟨Schema.standardVersion, mode, w.domain, w.equations.map Equation.spec⟩ =
      (.ok (), w') := hp
  refine ⟨w', ?_, hd, he ▸ hf⟩
  rw [ofSpec, hm]

theorem map_said {es es' : List Equation} (h : List.Forall₂ Restored es es') :
    es'.map Equation.said = es.map Equation.said := by
  induction h with
  | nil => rfl
  | cons he _ ih =>
    rw [List.map_cons, List.map_cons, Equation.said, he.expression, he.color, he.visible, ih,
      Equation.said]

/-! ### Characters that are not read -/

theorem mem_document {c : Char} (he : e ∈ w.equations) (hc : c ∈ e.expression.toList)
    (hge : 0x20 ≤ c.toNat) (hn : isAllowed c = false) : c ∈ w.document.toList := by
  have hequation : c ∈ (equationJson e).chars plainStyle 2 :=
    mem_chars_object List.mem_cons_self (mem_chars_text hc hge hn _)
  have hlist : c ∈ (Json.list (w.equations.map equationJson)).chars plainStyle 1 :=
    mem_chars_list (List.mem_map_of_mem he) hequation
  have hjson : c ∈ w.toJson.chars plainStyle 0 := mem_chars_object List.mem_cons_self hlist
  have hprint : c ∈ (w.toJson.print plainStyle).toList := by
    rwa [Json.print, String.toList_ofList]
  rw [document, String.toList_append]
  exact List.mem_append_left _ hprint

/-! ### Export and reload -/

/-- A workspace's text depends on nothing else. -/
theorem document_eq {w' : Workspace} (hd : w'.domain = w.domain)
    (he : w'.equations.map Equation.said = w.equations.map Equation.said) :
    w'.document = w.document := by
  have hjson : ∀ v : Workspace, v.toJson = .object
      [("equations", .list ((v.equations.map Equation.said).map fun p =>
        .object [("expression", .text p.1), ("color", .text p.2.1), ("visible", .bool p.2.2)])),
        ("settings", domainJson v.domain)] := fun v => by
    rw [toJson, List.map_map]
    rfl
  rw [document, document, hjson, hjson, hd, he]

/-- The text of a reachable workspace whose colors are checked is read back as a workspace over the same
domain with the same expressions, colors and visibilities in their order, and so with the same text, if
reading leaves the expressions alone. If an expression has a character that a text may not hold, and that
is not escaped, the text is not read at all. -/
theorem reload (h : Reachable w)
    (hc : ∀ e ∈ w.equations, ∃ s, Schema.readColorText s = .ok e.color)
    (hr : (toString w.domain.resolution).length ≤ maxDigits) :
    ((∀ e ∈ w.equations, Kept e.expression.toList) → ∃ w', ofDocument w.document = .ok w' ∧
      w'.domain = w.domain ∧ w'.equations.map Equation.said = w.equations.map Equation.said ∧
      w'.document = w.document) ∧
    ∀ e ∈ w.equations, ∀ c ∈ e.expression.toList, 0x20 ≤ c.toNat → isAllowed c = false →
      ofDocument w.document = .error (.document (.unreadable .malformed)) := by
  have hcolor : ∀ e ∈ w.equations, Color.isHexText e.color = true ∧ e.color.toLower = e.color := by
    intro e he
    obtain ⟨s, hs⟩ := hc e he
    exact Schema.readColorText_eq_ok hs
  constructor
  · intro hk
    have hlen : (Nat.toDigits 10 w.domain.resolution).length ≤ maxDigits := by
      rwa [Nat.toString_eq_ofList_toDigits, String.length_ofList] at hr
    have hd := document_read hk (fun e he => (hcolor e he).1) hlen
    obtain ⟨w', ho, hdomain, hf⟩ := ofSpec_restored h.settled h.consistent
      (fun e he => (hcolor e he).2) .solid
    have hsaid := map_said hf
    refine ⟨w', ?_, hdomain, hsaid, document_eq hdomain hsaid⟩
    simp only [ofDocument, hd, ho]
    rfl
  · intro e he c hce hge hn
    rw [ofDocument, Document.read, Document.readEntries,
      read_forbidden (mem_document he hce hge hn) hn]
    rfl

theorem reload_hidden :
    (let w := (perform (Operation.add "x" none false).action (empty .standard .solid)).2
      ∃ w', ofDocument w.document = .ok w' ∧ w'.domain = w.domain ∧
        w'.equations.map Equation.said = w.equations.map Equation.said ∧
        w'.document = w.document) ∧
    ofDocument (perform (Operation.add "x\x7f" none false).action
      (empty .standard .solid)).2.document = .error (.document (.unreadable .malformed)) := by
  have hcolor : Schema.readColorText "#6366f1" = .ok "#6366f1" := Schema.readColorText_palette 1
  have hlen : (toString Domain.standard.resolution).length ≤ maxDigits :=
    Nat.le_trans (m := 2) (by decide) (by rw [maxDigits]; omega)
  have hcolors : ∀ s : String, ∀ e ∈ [undrawn 1 s "#6366f1" false],
      ∃ s, Schema.readColorText s = .ok e.color := by
    intro s e he
    rw [List.mem_singleton.1 he]
    exact ⟨_, hcolor⟩
  have hreach : ∀ s : String, Reachable (perform (Operation.add s none false).action
      (empty .standard .solid)).2 := fun s =>
    ⟨.standard, .solid, .step (.add s none false) .refl trivial⟩
  constructor
  · refine (reload (hreach "x") (hcolors "x") hlen).1 fun e he => ?_
    obtain rfl : e = undrawn 1 "x" "#6366f1" false := List.mem_singleton.1 he
    have hx : (undrawn 1 "x" "#6366f1" false).expression.toList = ['x'] := by decide
    rw [hx]
    apply Kept.of_ascii
    simp
  · exact (reload (hreach "x\x7f") (hcolors "x\x7f") hlen).2 _ (List.mem_singleton_self _) '\x7f'
      (by decide) (by decide) (by decide)

end Workspace

end Relief
