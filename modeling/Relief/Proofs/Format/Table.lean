import Mathlib
import Relief.Format.Plain
import Relief.Proofs.Format.Coordinate
import Relief.Proofs.Format.Drawn

/-!
Tables are read back. A reader of records with fields between commas finds every vertex of every drawn
equation, whatever the text of the equation is.
-/
namespace Relief.Format

namespace Table

/-- Where a reader stands in a record. -/
inductive Place where
  /-- Before a field. -/
  | start
  | bare
  | quoted
  /-- After a quote in a field in quotes, which ends it unless it is the first of two. -/
  | closed

/-- What has been read: whole records, whole fields of the next one, and the start of a field. -/
structure Reader where
  place : Place
  field : List Char
  fields : List String
  records : List (List String)

/-- What may stand in a field without quotes. -/
def isTextData (c : Char) : Bool :=
  ' ' ≤ c && c ≤ '~' && c != '"' && c != ','

namespace Reader

def initial : Reader := ⟨.start, [], [], []⟩

def push (r : Reader) (place : Place) (c : Char) : Reader :=
  { r with place := place, field := r.field ++ [c] }

def endField (r : Reader) : Reader :=
  { r with place := .start, field := [], fields := r.fields ++ [String.ofList r.field] }

def endRecord (r : Reader) : Reader :=
  ⟨.start, [], [], r.records ++ [r.endField.fields]⟩

/-- Fields are separated by commas and records end with line breaks. -/
def separate? (r : Reader) (c : Char) : Option Reader :=
  if c = ',' then some r.endField
  else if c = '\n' then some r.endRecord
  else none

def step (r : Reader) (c : Char) : Option Reader :=
  match r.place with
  | .start =>
    if c = '"' then some { r with place := .quoted }
    else if isTextData c then some (r.push .bare c)
    else r.separate? c
  | .bare => if isTextData c then some (r.push .bare c) else r.separate? c
  | .quoted => if c = '"' then some { r with place := .closed } else some (r.push .quoted c)
  | .closed => if c = '"' then some (r.push .quoted c) else r.separate? c

/-- The records when the text is at its end. The last one may lack its line break. -/
def finish (r : Reader) : Option (List (List String)) :=
  match r.place, r.fields with
  | .quoted, _ => none
  | .start, [] => some r.records
  | _, _ => some r.endRecord.records

def run (r : Reader) (cs : List Char) : Option Reader :=
  cs.foldlM step r

end Reader

/-- The records of a text. A field in quotes may hold any character, and a quote in it is written
twice. -/
def read (text : String) : Option (List (List String)) :=
  (Reader.initial.run text.toList).bind Reader.finish

/-! ### What the reader makes of what is written -/

namespace Reader

variable {r : Reader} {c : Char} {cs : List Char} {field : List Char} {fields : List String}
  {records : List (List String)}

theorem run_append (r : Reader) (cs ds : List Char) :
    r.run (cs ++ ds) = (r.run cs).bind (run · ds) :=
  List.foldlM_append

theorem run_cons (r : Reader) (c : Char) (cs : List Char) :
    r.run (c :: cs) = (r.step c).bind (run · cs) :=
  List.foldlM_cons

/-- Between quotes a text is taken as it is, with every quote halved. -/
theorem run_doubled (cs : List Char) :
    run ⟨.quoted, field, fields, records⟩
        (cs.flatMap fun c => if c == '"' then ['"', '"'] else [c]) =
      some ⟨.quoted, field ++ cs, fields, records⟩ := by
  induction cs generalizing field with
  | nil => rw [List.append_nil]; rfl
  | cons c cs ih =>
    have h : run ⟨.quoted, field, fields, records⟩ (if c == '"' then ['"', '"'] else [c]) =
        some ⟨.quoted, field ++ [c], fields, records⟩ := by
      by_cases hc : c = '"'
      · subst hc
        rfl
      · rw [if_neg (by simpa using hc), run_cons, step]
        dsimp only
        rw [if_neg hc]
        rfl
    rw [List.flatMap_cons, run_append, h, Option.bind_some, ih, List.append_assoc]
    rfl

theorem run_quoteField (text : String) :
    run ⟨.start, [], fields, records⟩ (quoteField text) =
      some ⟨.closed, text.toList, fields, records⟩ := by
  have h : run ⟨.start, [], fields, records⟩ ['"'] = some ⟨.quoted, [], fields, records⟩ := rfl
  rw [quoteField, List.cons_append, ← List.singleton_append, run_append, h, Option.bind_some,
    run_append, run_doubled]
  rfl

theorem isTextData_of_isPlainMark (h : IsPlainMark c) : isTextData c = true := by
  obtain ⟨h1, h2, h3, h4⟩ := h
  simp [isTextData, h1.le, h2, h3, h4]

theorem run_marks (h : ∀ c ∈ cs, IsPlainMark c) :
    run ⟨.bare, field, fields, records⟩ cs = some ⟨.bare, field ++ cs, fields, records⟩ := by
  induction cs generalizing field with
  | nil => rw [List.append_nil]; rfl
  | cons c cs ih =>
    obtain ⟨hc, hcs⟩ := List.forall_mem_cons.1 h
    rw [run_cons, step]
    dsimp only
    rw [if_pos (isTextData_of_isPlainMark hc), Option.bind_some, push, ih hcs, List.append_assoc]
    rfl

theorem run_plainWord (h : IsPlainWord cs) :
    run ⟨.start, [], fields, records⟩ cs = some ⟨.bare, cs, fields, records⟩ := by
  obtain ⟨c, cs, rfl⟩ := List.exists_cons_of_ne_nil h.ne_nil
  obtain ⟨hc, hcs⟩ := List.forall_mem_cons.1 h.marks
  rw [run_cons, step]
  dsimp only
  rw [if_neg hc.2.2.1, if_pos (isTextData_of_isPlainMark hc), Option.bind_some, push, run_marks hcs]
  rfl

end Reader

/-- How a text is written as a field that a separator may follow. -/
def Written (cs : List Char) (text : String) : Prop :=
  ∃ place, (place = .bare ∨ place = .closed) ∧ ∀ fields records,
    Reader.run ⟨.start, [], fields, records⟩ cs = some ⟨place, text.toList, fields, records⟩

theorem written_quoteField (text : String) : Written (quoteField text) text :=
  ⟨.closed, .inr rfl, fun _ _ => Reader.run_quoteField text⟩

theorem written_plainWord {text : String} (h : IsPlainWord text.toList) :
    Written text.toList text :=
  ⟨.bare, .inl rfl, fun _ _ => Reader.run_plainWord h⟩

namespace Written

variable {cs : List Char} {text : String}

theorem run_comma (h : Written cs text) (fields : List String) (records : List (List String)) :
    Reader.run ⟨.start, [], fields, records⟩ (cs ++ [',']) =
      some ⟨.start, [], fields ++ [text], records⟩ := by
  obtain ⟨place, rfl | rfl, h⟩ := h <;>
  · rw [Reader.run_append, h, Option.bind_some]
    conv_rhs => rw [← String.ofList_toList (s := text)]
    rfl

theorem run_break (h : Written cs text) (fields : List String) (records : List (List String)) :
    Reader.run ⟨.start, [], fields, records⟩ (cs ++ ['\n']) =
      some ⟨.start, [], [], records ++ [fields ++ [text]]⟩ := by
  obtain ⟨place, rfl | rfl, h⟩ := h <;>
  · rw [Reader.run_append, h, Option.bind_some]
    conv_rhs => rw [← String.ofList_toList (s := text)]
    rfl

end Written

/-- A line with a field for each text. -/
def Line (line : String) (texts : List String) : Prop :=
  ∃ ws, List.Forall₂ Written ws texts ∧ ws ≠ [] ∧ line.toList = List.intercalate [','] ws

theorem run_fields {ws : List (List Char)} {texts : List String} (h : List.Forall₂ Written ws texts)
    (hn : ws ≠ []) (fields : List String) (records : List (List String)) :
    Reader.run ⟨.start, [], fields, records⟩ (List.intercalate [','] ws ++ ['\n']) =
      some ⟨.start, [], [], records ++ [fields ++ texts]⟩ := by
  induction h generalizing fields with
  | nil => exact absurd rfl hn
  | @cons w text ws texts hw hws ih =>
    cases hws with
    | nil =>
      rw [List.intercalate_singleton]
      exact hw.run_break fields records
    | cons hw' hws =>
      rw [List.intercalate_cons_cons, List.append_assoc, Reader.run_append, hw.run_comma,
        Option.bind_some, ih (List.cons_ne_nil _ _), List.append_assoc]
      rfl

theorem run_lines {lines : List String} {table : List (List String)}
    (h : List.Forall₂ Line lines table) (records : List (List String)) :
    Reader.run ⟨.start, [], [], records⟩ (ofLines lines).toList =
      some ⟨.start, [], [], records ++ table⟩ := by
  have ht : (ofLines lines).toList = lines.flatMap fun line => line.toList ++ ['\n'] := by
    rw [ofLines, String.toList_join, List.flatMap_map]
    exact List.flatMap_congr fun line _ => String.toList_append
  rw [ht]
  clear ht
  induction h generalizing records with
  | nil => rw [List.append_nil]; rfl
  | cons hl _ ih =>
    obtain ⟨ws, hws, hn, hl⟩ := hl
    rw [List.flatMap_cons, Reader.run_append, hl, run_fields hws hn, Option.bind_some, ih,
      List.append_assoc]
    rfl

theorem read_ofLines {lines : List String} {table : List (List String)}
    (h : List.Forall₂ Line lines table) : read (ofLines lines) = some table := by
  rw [read, Reader.initial, run_lines h]
  rfl

end Table

/-! ### Vertices -/

def headerRecord : List String := ["Equation", "X", "Y", "Z"]

/-- A vertex of an equation with the given text. -/
def vertexRecord (expression : String) (v : Vec3 Float) : List String :=
  expression :: [v.x, v.y, v.z].map (placesText csvPlaces)

theorem line_header : Table.Line csvHeader headerRecord := by
  refine ⟨headerRecord.map String.toList, ?_, by decide, rfl⟩
  rw [List.forall₂_map_left_iff, List.forall₂_same]
  intro name hname
  apply Table.written_plainWord
  simp only [headerRecord, List.mem_cons, List.not_mem_nil, or_false] at hname
  obtain rfl | rfl | rfl | rfl := hname <;>
    exact isPlainWord_of_all (by decide) (by decide)

theorem line_vertex (expression : String) (v : Vec3 Float) :
    Table.Line (csvRow (String.ofList (quoteField expression)) v) (vertexRecord expression v) := by
  refine ⟨quoteField expression :: [v.x, v.y, v.z].map fun c => (placesText csvPlaces c).toList,
    ?_, List.cons_ne_nil _ _, ?_⟩
  · refine .cons (Table.written_quoteField expression) ?_
    rw [List.forall₂_map_left_iff, List.forall₂_map_right_iff, List.forall₂_same]
    exact fun c _ => Table.written_plainWord (isPlainWord_placesText csvPlaces c)
  · have hl : (String.ofList (quoteField expression)).toList = quoteField expression :=
      String.toList_ofList
    rw [csvRow, String.toList_intercalate, List.map_cons, hl, List.map_map]
    rfl

/-- The lines of surfaces with the records that they are read as. -/
theorem forall₂_line_csvRows (s : Surface) : List.Forall₂ Table.Line (csvRows s)
    (s.mesh.vertices.toList.map (vertexRecord s.expression)) := by
  rw [csvRows, List.forall₂_map_left_iff, List.forall₂_map_right_iff, List.forall₂_same]
  exact fun v _ => line_vertex s.expression v

/-- The records of the drawn equations of a list. -/
def vertexRecords (es : List Equation) : List (List String) :=
  es.flatMap fun e => e.mesh?.toList.flatMap fun m =>
    m.vertices.toList.map (vertexRecord e.expression)

/-- A table of equations, of which one is drawn, is read as a record of each vertex of each drawn
equation: the text of the equation and the coordinates in four places, which can always be had. -/
theorem read_csv (es : List Equation) (h : ∃ e ∈ es, e.mesh?.isSome = true) :
    (∀ v, toFixed csvPlaces v = .ok (placesText csvPlaces v)) ∧
      ∃ text, csv (es.filterMap Equation.surface?) = .ok text ∧
        Table.read text = some (headerRecord :: vertexRecords es) := by
  refine ⟨toFixed_eq_ok (by decide) (by decide),
    ofLines (csvHeader :: (es.filterMap Equation.surface?).flatMap csvRows), ?_, ?_⟩
  · rw [csv, require_eq_ok (surfaces_ne_nil h)]
    rfl
  · refine Table.read_ofLines (.cons line_header ?_)
    rw [flatMap_surfaces]
    exact forall₂_flatMap (fun _ => forall₂_flatMap (fun _ => forall₂_line_csvRows _) _) es

theorem read_csv_cell :
    (∃ e ∈ [cellEquation "\"x\",\ny" (-0.0) 0.5 1e21 (-0.12345)], e.mesh?.isSome = true) ∧
      ∃ text, csv ([cellEquation "\"x\",\ny" (-0.0) 0.5 1e21 (-0.12345)].filterMap
          Equation.surface?) = .ok text ∧
        Table.read text = some [["Equation", "X", "Y", "Z"],
          ["\"x\",\ny", "0.0000", "0.0000", "0.0000"],
          ["\"x\",\ny", "0.0000", "1.0000", "0.5000"],
          ["\"x\",\ny", "1.0000", "0.0000", "1e+21"],
          ["\"x\",\ny", "1.0000", "1.0000", "-0.1235"]] :=
  have h : ∃ e ∈ [cellEquation "\"x\",\ny" (-0.0) 0.5 1e21 (-0.12345)], e.mesh?.isSome = true :=
    ⟨_, List.mem_singleton_self _, rfl⟩
  have ht : headerRecord :: vertexRecords [cellEquation "\"x\",\ny" (-0.0) 0.5 1e21 (-0.12345)] =
      [["Equation", "X", "Y", "Z"],
        ["\"x\",\ny", "0.0000", "0.0000", "0.0000"],
        ["\"x\",\ny", "0.0000", "1.0000", "0.5000"],
        ["\"x\",\ny", "1.0000", "0.0000", "1e+21"],
        ["\"x\",\ny", "1.0000", "1.0000", "-0.1235"]] := by decide +kernel
  ⟨h, ht ▸ (read_csv _ h).2⟩

end Relief.Format
