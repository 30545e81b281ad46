import Mathlib
import Relief.Proofs.Color
import Relief.Proofs.Workspace.Crash
import Relief.Proofs.Workspace.Reload

/-!
What a document says is said again by the workspace that is made from it, with the colors that were
missing. So a workspace that is made again says what the first one says, whatever was done to that.
-/
namespace Relief

/-- A text that is accepted or refused. -/
def Evaluator.Decides (source : String) : Prop :=
  (∃ f, compile source = .ok f) ∨ ∃ r, compile source = .error (.rejected r)

theorem Evaluator.Decides.ne_crashed {source : String} (h : Decides source) (c : Crash) :
    compile source ≠ .error (.crashed c) := by
  intro hc
  obtain ⟨f, hf⟩ | ⟨r, hr⟩ := h
  · rw [hf] at hc
    cases hc
  · rw [hr] at hc
    cases hc

/-- What is said of an equation that is given an id, and the color of that if there is none. -/
def EquationSpec.completed (s : EquationSpec) (id : Nat) : EquationSpec :=
  { s with color := some (s.color.getD (paletteColor id)) }

/-- What is said of a new workspace: ids are given out from one on, and the version is that which is
written. -/
def WorkspaceSpec.completed (spec : WorkspaceSpec) : WorkspaceSpec :=
  { spec with
    version := Schema.standardVersion
    equations := spec.equations.mapIdx fun k s => s.completed (k + 1) }

/-- What is said of an equation as it is. -/
def Equation.described (e : Equation) : EquationSpec := ⟨e.expression, some e.color, e.visible⟩

/-! ### Colors of documents -/

namespace Color

theorem mem_digits_of_isHexDigit {c : Char} (h : isHexDigit c = true) (hl : c.toLower = c) :
    c ∈ digits :=
  of_isHexDigit (P := fun c => c.toLower = c → c ∈ digits) (by decide) h hl

/-- What becomes of the text of a color: it is read and gives the same text again, or a line break at its end
makes it no color. -/
def IsReadOrBroken (text : String) : Prop :=
  ('\n' ∉ text.toList ∧ ∃ c, ofText text = .ok c ∧ c.text = text) ∨
    ('\n' ∈ text.toList ∧ ofText text = .error (.malformed text))

theorem isReadOrBroken_of_isHexText {text : String} (h : isHexText text = true)
    (hl : text.toLower = text) : IsReadOrBroken text := by
  obtain ⟨ds, rest, htext, hlen, hd, hrest⟩ := isHexText_iff.1 h
  have hmap : text.toList.map Char.toLower = text.toList.map id := by
    rw [List.map_id, ← String.toList_map]
    exact congrArg String.toList hl
  have hlower : ∀ c ∈ text.toList, c.toLower = c := List.map_inj_left.1 hmap
  have hmem : ∀ c ∈ ds, c ∈ digits := fun c hc =>
    mem_digits_of_isHexDigit (hd c hc) (hlower c (by simp [htext, hc]))
  have hbreak : '\n' ∉ ds := fun hc => absurd (hmem _ hc) (by decide)
  obtain rfl | rfl := hrest
  · left
    rw [List.append_nil] at htext
    refine ⟨?_, IsPlainText.exists_color ⟨ds, htext, hlen, hmem⟩⟩
    rw [htext, List.mem_cons, not_or]
    exact ⟨by decide, hbreak⟩
  · right
    refine ⟨by simp [htext], ofText_of_length ?_⟩
    obtain ⟨d, ds, rfl⟩ := List.exists_cons_of_length_pos (show 0 < ds.length by omega)
    have hne : d ≠ '#' := by
      rintro rfl
      exact absurd (hmem '#' List.mem_cons_self) (by decide)
    rw [htext, List.dropWhile_cons_of_pos rfl, List.cons_append,
      List.dropWhile_cons_of_neg (by simpa using hne), ← List.cons_append, List.length_append, hlen]
    decide

end Color

namespace Schema

variable {entries : Entries}

/-- A color as documents give it to an equation, or none. -/
def IsChecked (s : EquationSpec) : Prop :=
  ∀ c, s.color = some c → ∃ t, readColorText t = .ok c

theorem readColor_eq_ok {v : Value} {color : Option String} (h : readColor v = .ok color) :
    ∀ c, color = some c → ∃ t, readColorText t = .ok c := by
  rintro c rfl
  unfold readColor at h
  split at h
  · cases h
  · obtain ⟨t, -, ht⟩ := bind_eq_ok_iff.1 h
    cases hc : readColorText t with
    | error issues =>
      rw [hc] at ht
      cases ht
    | ok c' =>
      rw [hc] at ht
      cases ht
      exact ⟨t, hc⟩

theorem under_eq_ok {α : Type} {step : Step} {r : Except (List Issue) α} {a : α}
    (h : under step r = .ok a) : r = .ok a := by
  cases r with
  | ok b => exact h
  | error issues => cases h

theorem isChecked_of_entries {s : EquationSpec} (h : equationOfEntries entries = .ok s) :
    IsChecked s := by
  unfold equationOfEntries at h
  dsimp only at h
  split at h
  · next hcolor _ =>
    cases h
    unfold field at hcolor
    split at hcolor
    · exact readColor_eq_ok (under_eq_ok hcolor)
    · cases hcolor
      exact nofun
  · cases h

theorem isChecked_of_items {n : Nat} {items : List Value} {specs : List EquationSpec}
    (h : readItems readEquation n items = .ok specs) : ∀ s ∈ specs, IsChecked s := by
  induction items generalizing n specs with
  | nil =>
    cases h
    exact List.forall_mem_nil _
  | cons v vs ih =>
    rw [readItems] at h
    split at h
    · next hs hss =>
      cases h
      obtain ⟨es, -, he⟩ := bind_eq_ok_iff.1 (under_eq_ok hs)
      exact List.forall_mem_cons.2 ⟨isChecked_of_entries he, ih hss⟩
    · cases h

theorem isChecked_of_workspace {spec : WorkspaceSpec} (h : workspaceOfEntries entries = .ok spec) :
    ∀ s ∈ spec.equations, IsChecked s := by
  unfold workspaceOfEntries at h
  dsimp only at h
  split at h
  · next hequations =>
    cases h
    unfold field at hequations
    split at hequations
    · have hread := under_eq_ok hequations
      unfold readEquations at hread
      split at hread
      · exact isChecked_of_items hread
      · exact isChecked_of_items hread
      · cases hread
    · cases hequations
      exact List.forall_mem_nil _
  · cases h

theorem isReadOrBroken_of_text {t c : String} (h : readColorText t = .ok c) :
    Color.IsReadOrBroken c := by
  obtain ⟨hhex, hlower⟩ := readColorText_eq_ok h
  exact Color.isReadOrBroken_of_isHexText hhex hlower

end Schema

/-! ### Adding what is said -/

namespace Workspace

/-- Whether what is to be seen of an equation can be drawn or is refused. -/
def Drawable (s : EquationSpec) : Prop :=
  s.visible = true → s.expression.toList.all Text.isBlank = false → Evaluator.Decides s.expression

variable {v w : Workspace} {s : EquationSpec} {specs : List EquationSpec}

/-- An equation is added as it is said to be, whether its text is blank, accepted or refused. -/
theorem perform_add_said (hv : Ordered v) (hs : Drawable s) :
    ∃ e, perform (add s.expression s.color s.visible) v = (.ok e, v.appended e) ∧
      e.id = v.nextId ∧ e.described = s.completed v.nextId := by
  let new := undrawn v.nextId s.expression (s.color.getD (paletteColor v.nextId)) s.visible
  have hadd := perform_add hv s.expression s.color s.visible
  by_cases hvis : s.visible = true
  · cases hr : new.redraw v.domain with
    | error c =>
      obtain ⟨hb, hc⟩ := Equation.redraw_eq_error_iff.1 hr
      exact absurd hc ((hs hvis hb).ne_crashed c)
    | ok e =>
      obtain ⟨hid, hexpression, hcolor, hvisible⟩ := Equation.redraw_frame hr
      refine ⟨e, ?_, hid, ?_⟩
      · rw [hadd]
        dsimp only
        rw [if_pos hvis, hr]
      · rw [Equation.described, hexpression, hcolor, hvisible]
        rfl
  · refine ⟨new, ?_, rfl, rfl⟩
    rw [hadd]
    dsimp only
    rw [if_neg hvis]

/-- Equations are added one by one, in their order, and nothing else changes. -/
theorem perform_add_all (hv : Ordered v) (hs : ∀ s ∈ specs, Drawable s) :
    ∃ w, perform (specs.forM fun s => discard (add s.expression s.color s.visible)) v = (.ok (), w) ∧
      w.domain = v.domain ∧ w.colorMode = v.colorMode ∧
      w.equations.map Equation.described = v.equations.map Equation.described ++
        specs.mapIdx fun k s => s.completed (v.nextId + k) := by
  induction specs generalizing v with
  | nil => exact ⟨v, rfl, rfl, rfl, by rw [List.mapIdx_nil, List.append_nil]⟩
  | cons s specs ih =>
    obtain ⟨hs, hspecs⟩ := List.forall_mem_cons.1 hs
    obtain ⟨e, he, hid, hsaid⟩ := perform_add_said hv hs
    obtain ⟨w, hw, hdomain, hmode, hall⟩ := ih (hv.appended hid) hspecs
    refine ⟨w, ?_, hdomain, hmode, ?_⟩
    · rw [List.forM, perform_bind, perform_discard, he]
      exact hw
    · have hnext : ∀ k, (v.appended e).nextId + k = v.nextId + (k + 1) := by
        intro k
        rw [appended, Nat.succ_add, Nat.add_succ]
      have hequations : (v.appended e).equations = v.equations ++ [e] := rfl
      simp only [hall, hequations, hnext, List.mapIdx_cons, List.map_append, List.map_cons,
        List.map_nil, hsaid, List.append_assoc, List.singleton_append, Nat.add_zero]

/-! ### What is said afterwards -/

theorem isChecked_completed (hs : Schema.IsChecked s) (id : Nat) :
    ∃ t, Schema.readColorText t = .ok (s.color.getD (paletteColor id)) := by
  cases hc : s.color with
  | none => exact ⟨_, Schema.readColorText_palette id⟩
  | some c => exact hs c hc

/-- The color of an equation that a document describes is read and gives the same text again, unless a line
break at its end makes it no color. So is that of each equation of a workspace, with the colors that were
missing. -/
theorem color_isReadOrBroken (v : Value) (entries : Schema.Entries) :
    (∀ s c, Schema.readEquation v = .ok s → s.color = some c → Color.IsReadOrBroken c) ∧
    ∀ spec, Schema.workspaceOfEntries entries = .ok spec →
      ∀ s ∈ spec.completed.equations, ∃ c, s.color = some c ∧ Color.IsReadOrBroken c := by
  refine ⟨fun s c h hc => ?_, fun spec h s hs => ?_⟩
  · obtain ⟨entries, -, he⟩ := bind_eq_ok_iff.1 h
    obtain ⟨t, ht⟩ := Schema.isChecked_of_entries he c hc
    exact Schema.isReadOrBroken_of_text ht
  · obtain ⟨k, hk, rfl⟩ := List.mem_mapIdx.1 hs
    have hchecked := Schema.isChecked_of_workspace h _ (List.getElem_mem hk)
    obtain ⟨t, ht⟩ := isChecked_completed hchecked (k + 1)
    exact ⟨_, rfl, Schema.isReadOrBroken_of_text ht⟩

theorem readEquation_color {t c : String} (h : Schema.readColorText t = .ok c) :
    Schema.readEquation (.map [(.text "color", .text t)]) = .ok ⟨"", some c, true⟩ := by
  simp [Schema.readEquation, Schema.entriesOf, Schema.checkNames, Schema.equationOfEntries,
    Schema.field, Schema.isNamed, Schema.under, Schema.readText, Schema.readColor,
    Schema.readWords, Schema.issuesOf, Schema.unknownFields, Schema.equationFields, bind,
    Except.bind, Except.map, h]

/-- A color in capitals, which is kept in lower case, and the color of an equation without one. -/
theorem color_isReadOrBroken_capitals :
    (Schema.readEquation (.map [(.text "color", .text "#ABCDEF")]) = .ok ⟨"", some "#abcdef", true⟩ ∧
      ∃ c, Color.ofText "#abcdef" = .ok c ∧ c.text = "#abcdef") ∧
    Schema.workspaceOfEntries [(.text "equations", .list [.map []])] =
        .ok ⟨"1.0", .solid, .standard, [⟨"", none, true⟩]⟩ ∧
      ∃ c, Color.ofText "#6366f1" = .ok c ∧ c.text = "#6366f1" := by
  obtain ⟨hequation, hworkspace⟩ := color_isReadOrBroken
    (.map [(.text "color", .text "#ABCDEF")]) [(.text "equations", .list [.map []])]
  have hcapitals : Schema.readColorText "#ABCDEF" = .ok "#abcdef" := by decide +kernel
  have hread : Schema.workspaceOfEntries [(.text "equations", .list [.map []])] =
      .ok ⟨"1.0", .solid, .standard, [⟨"", none, true⟩]⟩ := rfl
  refine ⟨⟨readEquation_color hcapitals, ?_⟩, hread, ?_⟩
  · obtain ⟨-, hc⟩ | ⟨hbreak, -⟩ := hequation _ _ (readEquation_color hcapitals) rfl
    · exact hc
    · exact absurd hbreak (by decide)
  · obtain ⟨c, hs, hc⟩ := hworkspace _ hread _ List.mem_cons_self
    obtain rfl := Option.some.inj hs
    obtain ⟨-, hc⟩ | ⟨hbreak, -⟩ := hc
    · exact hc
    · exact absurd hbreak (by decide)

/-- A color with a line break at its end is accepted in a document and is none. -/
theorem color_lineBreak :
    Schema.readEquation (.map [(.text "color", .text "#6366f1\n")]) =
        .ok ⟨"", some "#6366f1\n", true⟩ ∧
      Color.ofText "#6366f1\n" = .error (.malformed "#6366f1\n") :=
  ⟨readEquation_color (by decide +kernel), Color.ofText_of_length (by decide +kernel)⟩

theorem toSpec_of_checked (hc : ∀ e ∈ w.equations, ∃ t, Schema.readColorText t = .ok e.color) :
    w.toSpec = .ok ⟨Schema.standardVersion, w.colorMode, w.domain,
      w.equations.map Equation.described⟩ := by
  have hcolor : ∀ e ∈ w.equations, Color.isHexText e.color = true ∧ e.color.toLower = e.color := by
    intro e he
    obtain ⟨t, ht⟩ := hc e he
    exact Schema.readColorText_eq_ok ht
  have hsaid : w.equations.map Equation.spec = w.equations.map Equation.described := by
    apply List.map_congr_left
    intro e he
    rw [Equation.spec, (hcolor e he).2, Equation.described]
  rw [toSpec_eq fun e he => (hcolor e he).1, hsaid]

/-- A workspace is made from what is said, and says it again. -/
theorem ofSpec_said (spec : WorkspaceSpec) (hs : ∀ s ∈ spec.equations, Drawable s)
    (hc : ∀ s ∈ spec.equations, Schema.IsChecked s) :
    ∃ w, ofSpec spec = .ok w ∧ w.toSpec = .ok spec.completed := by
  have hv : Ordered (empty spec.settings spec.colorMode) := (consistent_empty _ _).ordered
  obtain ⟨w, hw, hdomain, hmode, hall⟩ := perform_add_all hv hs
  have hall : w.equations.map Equation.described = spec.completed.equations := by
    rw [hall, WorkspaceSpec.completed]
    simp only [empty, List.map_nil, List.nil_append, Nat.add_comm 1]
  refine ⟨w, ?_, ?_⟩
  · have hm : makeFrom spec = (.ok (), w) := hw
    rw [ofSpec, hm]
  · have hchecked : ∀ e ∈ w.equations, ∃ t, Schema.readColorText t = .ok e.color := by
      intro e he
      have hmem : e.described ∈ spec.completed.equations := hall ▸ List.mem_map_of_mem he
      obtain ⟨k, hk, hsaid⟩ := List.mem_mapIdx.1 hmem
      have hcolor := congrArg EquationSpec.color hsaid
      obtain ⟨t, ht⟩ := isChecked_completed (hc _ (List.getElem_mem hk)) (k + 1)
      exact ⟨t, ht.trans (congrArg Except.ok (Option.some.inj hcolor))⟩
    rw [toSpec_of_checked hchecked, hall, hdomain, hmode]
    rfl

/-- What a workspace says leaves nothing to be completed. -/
theorem completed_said (d : Domain Float) (mode : Color.Mode) (es : List Equation) :
    WorkspaceSpec.completed ⟨Schema.standardVersion, mode, d, es.map Equation.described⟩ =
      ⟨Schema.standardVersion, mode, d, es.map Equation.described⟩ := by
  have hsame : ((es.map Equation.described).mapIdx fun k s => s.completed (k + 1)) =
      es.map Equation.described := by
    rw [List.mapIdx_eq_iff]
    intro k
    rw [List.getElem?_map]
    cases es[k]? <;> rfl
  rw [WorkspaceSpec.completed, hsame]

theorem drawable_described {e : Equation}
    (h : e.isShown = true → Evaluator.Decides e.expression) : Drawable e.described := by
  intro hv hb
  have hv : e.visible = true := hv
  have hb : e.isBlank = false := hb
  apply h
  rw [Equation.isShown, hv, hb]
  rfl

/-- A text that is to be seen was accepted or refused when it was looked at. -/
theorem Reachable.decides (h : Reachable w) :
    ∀ e ∈ w.equations, e.isShown = true → Evaluator.Decides e.expression := by
  intro e he hshown
  have hs := h.consistent.sound e he
  cases hn : e.rejection with
  | some r => exact .inr ⟨r, hs.rejected r hn⟩
  | none =>
    obtain ⟨f, m, d, hf, -⟩ := (h.settled e he).drawn hs hshown hn
    exact .inl ⟨f, hf⟩

/-- A document that the schema accepts, each of whose texts is accepted or refused, makes a workspace
that says the same again, with a color for every equation. A workspace that is made from what another
one says, in turn, says just that. This holds of what operations lead to, whatever they were, and of any
other workspace in which each text that is to be seen is accepted or refused. -/
theorem toSpec_ofSpec :
    (∀ entries spec, Schema.workspaceOfEntries entries = .ok spec →
      (∀ s ∈ spec.equations, Evaluator.Decides s.expression) →
      ∃ w, ofSpec spec = .ok w ∧ w.toSpec = .ok spec.completed) ∧
    ∀ w : Workspace,
      (Reachable w ∨ ∀ e ∈ w.equations, e.isShown = true → Evaluator.Decides e.expression) →
      (∀ e ∈ w.equations, ∃ t, Schema.readColorText t = .ok e.color) →
      ∃ spec w', w.toSpec = .ok spec ∧ ofSpec spec = .ok w' ∧ w'.toSpec = .ok spec := by
  constructor
  · intro entries spec hread hdecides
    exact ofSpec_said spec (fun s hs _ _ => hdecides s hs) (Schema.isChecked_of_workspace hread)
  · intro w hw hcolor
    have hdecides := hw.elim Reachable.decides id
    have hspec := toSpec_of_checked hcolor
    obtain ⟨w', hw', hsaid⟩ := ofSpec_said
      ⟨Schema.standardVersion, w.colorMode, w.domain, w.equations.map Equation.described⟩
      (List.forall_mem_map.2 fun e he => drawable_described (hdecides e he))
      (List.forall_mem_map.2 fun e he c hc => Option.some.inj hc ▸ hcolor e he)
    rw [completed_said] at hsaid
    exact ⟨_, w', hspec, hw', hsaid⟩

/-- A document with a refused text and, hidden, one without a color; and what is left of a workspace
whose first equation was deleted. -/
theorem toSpec_ofSpec_refused :
    (let spec : WorkspaceSpec :=
        ⟨"1", .solid, .standard, [⟨"x+", some "#abcdef", true⟩, ⟨"", none, false⟩]⟩
      ∃ w, ofSpec spec = .ok w ∧ w.toSpec = .ok ⟨"1.0", .solid, .standard,
        [⟨"x+", some "#abcdef", true⟩, ⟨"", some "#ec4899", false⟩]⟩) ∧
    let w := (perform (Operation.delete 1).action (perform (Operation.add "" none true).action
      (perform (Operation.add "x" none false).action (empty .standard .solid)).2).2).2
    ∃ spec w', w.toSpec = .ok spec ∧ ofSpec spec = .ok w' ∧ w'.toSpec = .ok spec := by
  constructor
  · have hcolor : Schema.readColorText "#ABCDEF" = .ok "#abcdef" := by decide +kernel
    have hfirst : Schema.readEquation (.map [(.text "expression", .text "x+"),
        (.text "color", .text "#ABCDEF")]) = .ok ⟨"x+", some "#abcdef", true⟩ := by
      simp [Schema.readEquation, Schema.entriesOf, Schema.checkNames, Schema.equationOfEntries,
        Schema.field, Schema.isNamed, Schema.under, Schema.readText, Schema.readColor,
        Schema.readWords, Schema.issuesOf, Schema.unknownFields, Schema.equationFields, bind,
        Except.bind, Except.map, hcolor]
    have hitems : Schema.readItems Schema.readEquation 0 [.map [(.text "expression", .text "x+"),
        (.text "color", .text "#ABCDEF")], .map [(.text "visible", .bool false)]] =
          .ok [⟨"x+", some "#abcdef", true⟩, ⟨"", none, false⟩] := by
      rw [Schema.readItems, hfirst]
      rfl
    have hread : Schema.workspaceOfEntries [(.text "version", .text "1"), (.text "equations", .list
        [.map [(.text "expression", .text "x+"), (.text "color", .text "#ABCDEF")],
          .map [(.text "visible", .bool false)]])] = .ok
        ⟨"1", .solid, .standard, [⟨"x+", some "#abcdef", true⟩, ⟨"", none, false⟩]⟩ := by
      simp [Schema.workspaceOfEntries, Schema.field, List.find?, Schema.isNamed, Schema.under,
        Schema.readText, Schema.readWords, Schema.readEquations, Schema.issuesOf,
        Schema.unknownFields, Schema.workspaceFields, hitems]
    have hblank : Evaluator.Decides "" := .inr ⟨.grammar .empty, by rfl⟩
    have hsum : Evaluator.Decides "x+" := .inr Evaluator.compile_sum
    refine toSpec_ofSpec.1 _ _ hread ?_
    rintro s (_ | ⟨_, _ | ⟨_, ⟨⟩⟩⟩)
    · exact hsum
    · exact hblank
  · refine toSpec_ofSpec.2 _ (.inl ?_) ?_
    · exact ⟨.standard, .solid, .step (.delete 1) (.step (.add "" none true)
        (.step (.add "x" none false) .refl trivial) trivial) trivial⟩
    · intro e he
      obtain rfl : e = undrawn 2 "" "#ec4899" true := List.mem_singleton.1 he
      exact ⟨_, Schema.readColorText_palette 2⟩

end Workspace

end Relief
