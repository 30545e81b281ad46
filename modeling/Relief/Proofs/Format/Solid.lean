import Mathlib
import Relief.Format.Plain
import Relief.Proofs.Format.Coordinate
import Relief.Proofs.Format.Drawn

/-!
Solids are read back. A reader of facets line by line finds every triangle of every drawn equation, and
every coordinate as the double that it was, up to the sign of a zero.
-/
namespace Relief.Format

namespace Solid

/-- Three corners with the direction in which they face. -/
structure Facet where
  normal : Vec3 Float
  corners : Vec3 Float × Vec3 Float × Vec3 Float

end Solid

structure Solid where
  name : String
  facets : List Solid.Facet

namespace Solid

/-! ### Reading -/

/-- The words of a line, which blanks separate. -/
def words (line : List Char) : List String :=
  ((line.splitOn ' ').filter fun w => !w.isEmpty).map String.ofList

/-- What follows some words at the start of a line. -/
def after? (start : List String) (line : List Char) : Option (List String) :=
  (words line).dropPrefix? start

/-- A mark of a number in digits. -/
def isNumberMark (c : Char) : Bool :=
  c.isDigit || c == '.' || c == '-' || c == '+' || c == 'e' || c == 'E'

/-- A number in digits, not one by name. -/
def number? (word : String) : Option Float :=
  if word.toList.all isNumberMark then Number.readFloat? word else none

/-- A line of three numbers after some words. -/
def vec? (start : List String) (line : List Char) : Option (Vec3 Float) := do
  match ← after? start line with
  | [x, y, z] => return ⟨← number? x, ← number? y, ← number? z⟩
  | _ => none

/-- A line of the given words and no others. -/
def mark? (line : List Char) (ws : List String) : Option Unit :=
  if words line = ws then some () else none

/-- The facets of the lines up to the last one, which ends the solid. -/
def facets? (last : List Char) : List (List Char) → Option (List Facet)
  | [line] => if line = last then some [] else none
  | l₁ :: l₂ :: l₃ :: l₄ :: l₅ :: l₆ :: l₇ :: lines => do
    let normal ← vec? ["facet", "normal"] l₁
    mark? l₂ ["outer", "loop"]
    let u ← vec? ["vertex"] l₃
    let v ← vec? ["vertex"] l₄
    let w ← vec? ["vertex"] l₅
    mark? l₆ ["endloop"]
    mark? l₇ ["endfacet"]
    return ⟨normal, u, v, w⟩ :: (← facets? last lines)
  | _ => none

/-- The lines of a text whose last line ends like all others. -/
def lines? (text : String) : Option (List (List Char)) :=
  let parts := text.toList.splitOn '\n'
  if parts.getLast? = some [] then some parts.dropLast else none

/-- A solid. Its name is what follows the first word and a blank, up to the end of the line. -/
def read (text : String) : Option Solid := do
  match ← lines? text with
  | [] => none
  | first :: rest =>
    let name ← first.dropPrefix? "solid ".toList
    return ⟨String.ofList name, ← facets? ("endsolid ".toList ++ name) rest⟩

/-! ### Lines and words -/

variable {line : List Char}

theorem lines?_ofLines {lines : List String} (h : ∀ line ∈ lines, '\n' ∉ line.toList) :
    lines? (ofLines lines) = some (lines.map String.toList) := by
  have ht : (ofLines lines).toList =
      ['\n'].intercalate (lines.map String.toList ++ [[]]) := by
    clear h
    induction lines with
    | nil => rfl
    | cons line lines ih =>
      rw [ofLines, String.toList_join] at ih ⊢
      rw [List.map_cons, List.flatMap_cons, ih, List.map_cons, List.cons_append,
        List.intercalate_cons_of_ne_nil (by simp), String.toList_append]
      rfl
  have hs : (ofLines lines).toList.splitOn '\n' = lines.map String.toList ++ [[]] := by
    rw [ht]
    refine List.splitOn_intercalate '\n' (fun l hl => ?_) (by simp)
    simp only [List.mem_append, List.mem_map, List.mem_singleton] at hl
    obtain ⟨line, hline, rfl⟩ | rfl := hl
    · exact h line hline
    · exact List.not_mem_nil
  simp only [lines?, hs]
  rw [if_pos List.getLast?_concat, List.dropLast_concat]

/-- A line of words with single blanks between them and any number of blanks before. -/
def wordLine (indent : Nat) (ws : List String) : List Char :=
  [' '].intercalate (List.replicate indent [] ++ ws.map String.toList)

def IsWord (w : String) : Prop := w.toList ≠ [] ∧ ∀ c ∈ w.toList, ' ' < c

theorem words_wordLine {ws : List String} (indent : Nat) (h : ∀ w ∈ ws, IsWord w) (hn : ws ≠ []) :
    words (wordLine indent ws) = ws := by
  have hb : ∀ l ∈ List.replicate indent [] ++ ws.map String.toList, ' ' ∉ l := by
    simp only [List.mem_append, List.mem_map]
    rintro l (hl | ⟨w, hw, rfl⟩)
    · rw [List.eq_of_mem_replicate hl]
      exact List.not_mem_nil
    · exact fun hc => absurd ((h w hw).2 _ hc) (by decide)
  have hf : (ws.map String.toList).filter (fun w => !w.isEmpty) = ws.map String.toList := by
    rw [List.filter_eq_self]
    intro l hl
    obtain ⟨w, hw, rfl⟩ := List.mem_map.1 hl
    simpa using (h w hw).1
  have he : (List.replicate indent ([] : List Char)).filter (fun w => !w.isEmpty) = [] := by
    rw [List.filter_eq_nil_iff]
    intro l hl
    rw [List.eq_of_mem_replicate hl]
    exact Bool.false_ne_true
  rw [words, wordLine, List.splitOn_intercalate ' ' hb (by simp [hn]), List.filter_append, hf, he,
    List.nil_append, List.map_map]
  conv_rhs => rw [← List.map_id ws]
  exact List.map_congr_left fun w _ => String.ofList_toList

theorem after?_wordLine {start rest : List String} (indent : Nat) (hs : ∀ w ∈ start, IsWord w)
    (hr : ∀ w ∈ rest, IsWord w) (hn : start ≠ []) :
    after? start (wordLine indent (start ++ rest)) = some rest := by
  rw [after?, words_wordLine indent (List.forall_mem_append.2 ⟨hs, hr⟩) (by simp [hn]),
    List.dropPrefix?_eq_some_iff]
  exact ⟨start, rfl, BEq.rfl⟩

theorem mark?_wordLine (ws : List String) (indent : Nat) (h : ∀ w ∈ ws, IsWord w) (hn : ws ≠ []) :
    mark? (wordLine indent ws) ws = some () := by
  rw [mark?, words_wordLine indent h hn, if_pos rfl]

/-! ### Numbers -/

/-- With zeros in place of negative zeros. -/
def plainVec (v : Vec3 Float) : Vec3 Float :=
  ⟨Number.dropZeroSign v.x, Number.dropZeroSign v.y, Number.dropZeroSign v.z⟩

theorem isWord_coordinateText (v : Float) : IsWord (coordinateText v) := by
  have h := isPlainWord_coordinateText v
  exact ⟨h.ne_nil, fun c hc => (h.marks c hc).1⟩

theorem all_isNumberMark {v : Float} (h : v.isFinite = true) :
    (coordinateText v).toList.all isNumberMark = true := by
  obtain ⟨s, m, e, hv⟩ := Number.exists_finite h
  obtain ⟨d, hd, -⟩ := Number.printed_magnitude (l := coordinate) (.inl rfl) (Number.shortest m e)
  have hw := hd.forall_mem (P := fun c => isNumberMark c = true)
    (fun c hc => by simp [isNumberMark, hc]) rfl rfl rfl rfl
  rw [coordinateText, Number.Layout.print, Number.Layout.printWith, hv, List.all_eq_true]
  dsimp only
  rw [String.toList_ofList, Number.sign]
  split
  · exact List.forall_mem_cons.2 ⟨rfl, hw⟩
  · exact hw

theorem number?_coordinateText {v : Float} (h : v.isFinite = true) :
    number? (coordinateText v) = some (Number.dropZeroSign v) := by
  rw [number?, if_pos (all_isNumberMark h), coordinateText, Number.readFloat?_print (.inl rfl) h]
  rfl

theorem vec?_wordLine (start : List String) {v : Vec3 Float} (indent : Nat)
    (hs : ∀ w ∈ start, IsWord w) (hn : start ≠ []) (hv : FiniteVec v) :
    vec? start (wordLine indent (start ++ [v.x, v.y, v.z].map coordinateText)) =
      some (plainVec v) := by
  have hr : ∀ w ∈ [v.x, v.y, v.z].map coordinateText, IsWord w :=
    List.forall_mem_map.2 fun c _ => isWord_coordinateText c
  have ha := after?_wordLine indent hs hr hn
  rw [vec?, ha]
  simp only [List.map_cons, List.map_nil, Option.bind_eq_bind, Option.bind_some,
    number?_coordinateText hv.x, number?_coordinateText hv.y, number?_coordinateText hv.z]
  rfl

/-! ### Facets -/

/-- A triangle of a mesh as a facet. -/
def facetOf (m : Mesh Float) (t : Triangle) : Facet :=
  let u := m.vertex t.a
  let v := m.vertex t.b
  let w := m.vertex t.c
  ⟨plainVec (facetNormal u v w), plainVec u, plainVec v, plainVec w⟩

/-- The lines of a facet by their words, with the blanks before them. -/
def facetWords (u v w : Vec3 Float) : List (Nat × List String) :=
  let coordinates (v : Vec3 Float) := [v.x, v.y, v.z].map coordinateText
  [(2, ["facet", "normal"] ++ coordinates (facetNormal u v w)), (4, ["outer", "loop"]),
    (6, ["vertex"] ++ coordinates u), (6, ["vertex"] ++ coordinates v),
    (6, ["vertex"] ++ coordinates w), (4, ["endloop"]), (2, ["endfacet"])]

theorem toList_facetLines (u v w : Vec3 Float) : (facetLines u v w).map String.toList =
    (facetWords u v w).map fun l => wordLine l.1 l.2 := by
  simp only [facetLines, vecText, List.map_cons, List.map_nil, String.toList_append,
    String.toList_intercalate]
  rfl

theorem isWord_of_all {ws : List String}
    (h : (ws.all fun w => !w.toList.isEmpty && w.toList.all (' ' < ·)) = true) :
    ∀ w ∈ ws, IsWord w := by
  intro w hw
  simpa [IsWord] using List.all_eq_true.1 h w hw

theorem isWord_append {ws : List String} (h : ∀ w ∈ ws, IsWord w) (v : Vec3 Float) :
    ∀ w ∈ ws ++ [v.x, v.y, v.z].map coordinateText, IsWord w :=
  List.forall_mem_append.2 ⟨h, List.forall_mem_map.2 fun c _ => isWord_coordinateText c⟩

theorem isWord_facetWords (u v w : Vec3 Float) :
    ∀ l ∈ facetWords u v w, ∀ x ∈ l.2, IsWord x := by
  have hf : ∀ x ∈ ["facet", "normal"], IsWord x := isWord_of_all (by decide)
  have hv : ∀ x ∈ ["vertex"], IsWord x := isWord_of_all (by decide)
  intro l hl
  simp only [facetWords, List.mem_cons, List.not_mem_nil, or_false] at hl
  obtain rfl | rfl | rfl | rfl | rfl | rfl | rfl := hl
  · exact isWord_append hf _
  · exact isWord_of_all (by decide)
  · exact isWord_append hv _
  · exact isWord_append hv _
  · exact isWord_append hv _
  · exact isWord_of_all (by decide)
  · exact isWord_of_all (by decide)

theorem facets?_facetLines {u v w : Vec3 Float} (hu : FiniteVec u) (hv : FiniteVec v)
    (hw : FiniteVec w) (hn : FiniteVec (facetNormal u v w)) (last : List Char)
    (lines : List (List Char)) :
    facets? last ((facetLines u v w).map String.toList ++ lines) =
      (facets? last lines).map (⟨plainVec (facetNormal u v w), plainVec u, plainVec v, plainVec w⟩ :: ·) := by
  have hvertex : ∀ x ∈ ["vertex"], IsWord x := isWord_of_all (by decide)
  have h1 := vec?_wordLine ["facet", "normal"] 2 (isWord_of_all (by decide)) (by simp) hn
  have h2 := mark?_wordLine ["outer", "loop"] 4 (isWord_of_all (by decide)) (by simp)
  have h3 := vec?_wordLine ["vertex"] 6 hvertex (by simp) hu
  have h4 := vec?_wordLine ["vertex"] 6 hvertex (by simp) hv
  have h5 := vec?_wordLine ["vertex"] 6 hvertex (by simp) hw
  have h6 := mark?_wordLine ["endloop"] 4 (isWord_of_all (by decide)) (by simp)
  have h7 := mark?_wordLine ["endfacet"] 2 (isWord_of_all (by decide)) (by simp)
  rw [toList_facetLines]
  simp only [facetWords, List.map_cons, List.map_nil, List.cons_append, List.nil_append] at *
  rw [facets?.eq_2, h1, h2, h3, h4, h5, h6, h7]
  cases facets? last lines <;> rfl

/-- Each of a list of things is read as some facets, and so all of them are. -/
theorem facets?_flatMap {α : Type} {f : α → List String} {g : α → List Facet} (last : List Char)
    {as : List α} (h : ∀ a ∈ as, ∀ lines, facets? last ((f a).map String.toList ++ lines) =
      (facets? last lines).map (g a ++ ·)) (lines : List (List Char)) :
    facets? last ((as.flatMap f).map String.toList ++ lines) =
      (facets? last lines).map (as.flatMap g ++ ·) := by
  induction as with
  | nil => exact Option.map_id'.symm
  | cons a as ih =>
    obtain ⟨ha, has⟩ := List.forall_mem_cons.1 h
    rw [List.flatMap_cons, List.map_append, List.append_assoc, ha, ih has, Option.map_map]
    congr 1
    funext fs
    rw [Function.comp_apply, List.flatMap_cons, List.append_assoc]

/-- All points of a surface and the directions of all its triangles are finite. -/
structure FiniteMesh (m : Mesh Float) : Prop where
  vertices : ∀ v ∈ m.vertices, FiniteVec v
  normals : ∀ t ∈ m.triangles,
    FiniteVec (facetNormal (m.vertex t.a) (m.vertex t.b) (m.vertex t.c))

theorem FiniteMesh.vertex {m : Mesh Float} (h : FiniteMesh m) (k : Nat) :
    FiniteVec (m.vertex k) := by
  rw [Mesh.vertex]
  cases hk : m.vertices[k]? with
  | none => exact ⟨rfl, rfl, rfl⟩
  | some v => exact h.vertices v (Array.mem_of_getElem? hk)

theorem facets?_meshFacets {m : Mesh Float} (h : FiniteMesh m) (last : List Char)
    (lines : List (List Char)) :
    facets? last ((meshFacets m).map String.toList ++ lines) =
      (facets? last lines).map (m.triangles.map (facetOf m) ++ ·) := by
  rw [List.map_eq_flatMap (f := facetOf m), meshFacets]
  apply facets?_flatMap
  intro t ht lines
  rw [facets?_facetLines (h.vertex t.a) (h.vertex t.b) (h.vertex t.c) (h.normals t ht)]
  rfl

/-- The facets of the drawn equations of a list. -/
def facetsOf (es : List Equation) : List Facet :=
  es.flatMap fun e => e.mesh?.toList.flatMap fun m => m.triangles.map (facetOf m)

theorem facets?_equations {es : List Equation}
    (h : ∀ e ∈ es, ∀ m ∈ e.mesh?, FiniteMesh m) (last : List Char) :
    facets? last (((es.filterMap Equation.surface?).flatMap fun s => meshFacets s.mesh).map
      String.toList ++ [last]) = some (facetsOf es) := by
  have hl : facets? last [last] = some [] := if_pos rfl
  rw [flatMap_surfaces, facets?_flatMap (g := fun e => e.mesh?.toList.flatMap fun m =>
    m.triangles.map (facetOf m)), hl, Option.map_some, List.append_nil, facetsOf]
  intro e he lines
  apply facets?_flatMap
  intro m hm lines
  exact facets?_meshFacets (h e he m (Option.mem_toList.1 hm)) last lines

/-! ### Whole solids -/

theorem not_mem_intercalate {c : Char} {sep : List Char} {ls : List (List Char)} (hs : c ∉ sep)
    (h : ∀ l ∈ ls, c ∉ l) : c ∉ sep.intercalate ls := by
  induction ls with
  | nil => exact List.not_mem_nil
  | cons l ls ih =>
    obtain ⟨hl, hls⟩ := List.forall_mem_cons.1 h
    by_cases hn : ls = []
    · rwa [hn, List.intercalate_singleton]
    · rw [List.intercalate_cons_of_ne_nil hn, List.mem_append, List.mem_append]
      exact not_or.2 ⟨not_or.2 ⟨hl, hs⟩, ih hls⟩

theorem not_mem_wordLine {ws : List String} (indent : Nat) (h : ∀ w ∈ ws, IsWord w) :
    '\n' ∉ wordLine indent ws := by
  refine not_mem_intercalate (by decide) ?_
  simp only [List.mem_append, List.mem_map]
  rintro l (hl | ⟨w, hw, rfl⟩)
  · rw [List.eq_of_mem_replicate hl]
    exact List.not_mem_nil
  · exact fun hc => absurd ((h w hw).2 _ hc) (by decide)

theorem not_mem_facetLines (u v w : Vec3 Float) :
    ∀ line ∈ facetLines u v w, '\n' ∉ line.toList := by
  rw [← List.forall_mem_map (f := String.toList) (P := ('\n' ∉ ·)), toList_facetLines,
    List.forall_mem_map]
  exact fun l hl => not_mem_wordLine l.1 (isWord_facetWords u v w l hl)

/-- A solid of equations, of which one is drawn, is read as the facets of the drawn ones, each of its
triangles in turn, if all their numbers are finite. -/
theorem read_stl (name : String) (es : List Equation) (h : ∃ e ∈ es, e.mesh?.isSome = true)
    (hname : '\n' ∉ name.toList) (hf : ∀ e ∈ es, ∀ m ∈ e.mesh?, FiniteMesh m) :
    ∃ text, stl name (es.filterMap Equation.surface?) = .ok text ∧
      Solid.read text = some ⟨name, facetsOf es⟩ := by
  let body := (es.filterMap Equation.surface?).flatMap fun s => meshFacets s.mesh
  have hmark : ∀ start : String, '\n' ∉ start.toList → '\n' ∉ (start ++ name).toList := by
    intro start hs
    rw [String.toList_append, List.mem_append]
    exact not_or.2 ⟨hs, hname⟩
  have hlines : ∀ line ∈ ("solid " ++ name) :: body ++ ["endsolid " ++ name],
      '\n' ∉ line.toList := by
    simp only [List.cons_append, List.mem_cons, List.mem_append, List.not_mem_nil, or_false]
    rintro line (rfl | hl | rfl)
    · exact hmark _ (by decide)
    · obtain ⟨s, -, hl⟩ := List.mem_flatMap.1 hl
      obtain ⟨t, -, hl⟩ := List.mem_flatMap.1 hl
      exact not_mem_facetLines _ _ _ line hl
    · exact hmark _ (by decide)
  refine ⟨ofLines (("solid " ++ name) :: body ++ ["endsolid " ++ name]), ?_, ?_⟩
  · rw [stl, require_eq_ok (surfaces_ne_nil h)]
    rfl
  · have hp : ("solid " ++ name).toList.dropPrefix? "solid ".toList = some name.toList := by
      rw [String.toList_append, List.dropPrefix?_eq_some_iff]
      exact ⟨_, rfl, BEq.rfl⟩
    have hb := facets?_equations hf ("endsolid ".toList ++ name.toList)
    rw [read, lines?_ofLines hlines]
    simp only [List.cons_append, List.map_cons, List.map_append, List.map_nil,
      Option.bind_eq_bind, Option.bind_some, hp]
    rw [String.toList_append, hb]
    simp

theorem read_stl_cell :
    (∃ e ∈ [cellEquation "x" (-0.0) 0.1 1e-7 3e22], e.mesh?.isSome = true) ∧
      '\n' ∉ "endsolid of two ".toList ∧
      (∀ e ∈ [cellEquation "x" (-0.0) 0.1 1e-7 3e22], ∀ m ∈ e.mesh?, FiniteMesh m) ∧
      ∃ text, stl "endsolid of two " ([cellEquation "x" (-0.0) 0.1 1e-7 3e22].filterMap
          Equation.surface?) = .ok text ∧
        ∃ m n, Solid.read text = some ⟨"endsolid of two ",
          [⟨m, ⟨0, 0, 0⟩, ⟨1, 0, 1e-7⟩, ⟨0, 1, 0.1⟩⟩,
            ⟨n, ⟨0, 1, 0.1⟩, ⟨1, 0, 1e-7⟩, ⟨1, 1, 3e22⟩⟩]⟩ := by
  have h : ∃ e ∈ [cellEquation "x" (-0.0) 0.1 1e-7 3e22], e.mesh?.isSome = true :=
    ⟨_, List.mem_singleton_self _, rfl⟩
  have hname : '\n' ∉ "endsolid of two ".toList := by decide
  have hf : ∀ e ∈ [cellEquation "x" (-0.0) 0.1 1e-7 3e22], ∀ m ∈ e.mesh?, FiniteMesh m := by
    intro e he m hm
    rw [List.mem_singleton.1 he] at hm
    cases hm
    refine ⟨?_, ?_⟩
    · intro v hv
      simp only [List.mem_toArray, List.mem_cons, List.not_mem_nil, or_false] at hv
      obtain rfl | rfl | rfl | rfl := hv <;> exact ⟨by decide, by decide, by decide⟩
    · intro t ht
      simp only [Mesh.triangles, triangles, List.range_succ, List.range_zero, List.nil_append,
        List.flatMap_cons, List.flatMap_nil, List.append_nil, cellTriangles, List.mem_cons,
        List.not_mem_nil, or_false] at ht
      obtain rfl | rfl := ht <;> exact ⟨by decide +kernel, by decide +kernel, by decide +kernel⟩
  obtain ⟨text, ht, hr⟩ := read_stl "endsolid of two " _ h hname hf
  exact ⟨h, hname, hf, text, ht, _, _, hr⟩

end Solid

end Relief.Format
