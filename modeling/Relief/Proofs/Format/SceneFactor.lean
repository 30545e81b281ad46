import Mathlib
import Relief.Proofs.Format.Parts

/-!
The values that the texts of descriptions stand for, and the factors of a scene, which are the base colors of its
materials. Where the factors of a text are rounded, all other values of the description stay as they are.
-/
namespace Relief

namespace Format.Glb

open Number
open Json (compact)

/-- The value of a text in bytes. -/
def description? (bytes : List UInt8) : Option Value := do
  Json.read? (← String.fromUTF8? ⟨bytes.toArray⟩).toList

/-- The bytes of a compact description, with blanks behind it or not. -/
def IsText (j : Json) (bytes : List UInt8) : Prop :=
  ∃ n, bytes = (j.print compact).toUTF8.data.toList ++ List.replicate n 0x20

variable {j : Json} {bytes : List UInt8} {w : List Char}

theorem isText_textBytes (j : Json) : IsText j (textBytes (j.print compact)) := ⟨_, rfl⟩

theorem length_textBytes_mod (s : String) : (textBytes s).length % 4 = 0 := by
  rw [textBytes]
  simp only [List.length_append, List.length_replicate]
  omega

/-! ### Bytes of texts -/

theorem toList_blanks (n : Nat) :
    (String.ofList (List.replicate n ' ')).toUTF8.data.toList = List.replicate n 0x20 := by
  have hc : String.utf8EncodeChar ' ' = [0x20] := by decide
  change (String.ofList (List.replicate n ' ')).toByteArray.data.toList = _
  rw [String.toByteArray_ofList, List.utf8Encode, List.data_toByteArray, List.flatMap_replicate, hc,
    List.flatten_replicate_singleton]

/-- Bytes of a text with blanks behind it are a text. -/
theorem fromUTF8?_blanks (s : String) (n : Nat) :
    String.fromUTF8? ⟨(s.toUTF8.data.toList ++ List.replicate n 0x20).toArray⟩ =
      some (s ++ String.ofList (List.replicate n ' ')) := by
  have hb : (⟨(s.toUTF8.data.toList ++ List.replicate n 0x20).toArray⟩ : ByteArray) =
      (s ++ String.ofList (List.replicate n ' ')).toByteArray := by
    apply ByteArray.ext
    rw [← toList_blanks, String.toByteArray_append, ByteArray.data_append]
    simp
  rw [hb, String.fromUTF8?, dif_pos (String.isValidUTF8 _)]
  rfl

/-! ### Values of texts -/

theorem description?_of_text (h : IsText j bytes) (he : Json.IsExact j) :
    description? bytes = some j.toValue := by
  obtain ⟨n, rfl⟩ := h
  have hs : (List.replicate n ' ').all Json.isSpace = true :=
    List.all_eq_true.2 fun c hc => by
      rw [List.eq_of_mem_replicate hc]
      rfl
  rw [description?, fromUTF8?_blanks, Json.print]
  simp only [Option.bind_eq_bind, Option.bind_some, String.toList_append, String.toList_ofList]
  exact Json.read?_chars he hs

/-- What ends a value is no blank. -/
def Closes (cs : List Char) : Prop := ∃ ds c, cs = ds ++ [c] ∧ c ≠ ' '

theorem Closes.of_bare (hn : w ≠ []) (hb : Json.AreBare w) : Closes w := by
  obtain rfl | ⟨ds, c, rfl⟩ := List.eq_nil_or_concat w
  · exact absurd rfl hn
  · refine ⟨ds, c, List.concat_eq_append, ?_⟩
    rintro rfl
    exact absurd (hb ' ' (by simp)) (by decide)

theorem Closes.of_number {v : Value} (h : Json.number? w = some v) : Closes w :=
  .of_bare (Json.ne_nil_of_isNumber (Json.isNumber_of_number? h))
    (.of_isNumber (Json.isNumber_of_number? h))

theorem closes_chars (he : Json.IsExact j) (level : Nat) : Closes (Json.chars compact level j) := by
  cases j with
  | null => exact .of_bare (w := "null".toList) (by decide) (List.all_eq_true.1 (by decide))
  | bool b =>
    cases b with
    | true => exact .of_bare (w := "true".toList) (by decide) (List.all_eq_true.1 (by decide))
    | false => exact .of_bare (w := "false".toList) (by decide) (List.all_eq_true.1 (by decide))
  | int n => exact .of_number (Json.number?_int n)
  | float v => exact .of_number (Json.number?_float he)
  | fixed places v => exact .of_number (Json.number?_fixed he.1 he.2)
  | text s => exact ⟨_, '"', rfl, by decide⟩
  | list items =>
    rw [Json.chars, Json.bracketed_compact]
    exact ⟨_, ']', rfl, by decide⟩
  | object members =>
    rw [Json.chars, Json.bracketed_compact]
    exact ⟨_, '\x7d', rfl, by decide⟩

theorem roundText?_of_text (h : IsText j bytes) (hj : Json.IsRaw j) (he : Json.IsExact j) :
    roundText? bytes = some (textBytes (j.rounded.print compact)) := by
  obtain ⟨n, rfl⟩ := h
  obtain ⟨cs, c, hc, hne⟩ := closes_chars he 0
  have hd : (((Json.chars compact 0 j ++ List.replicate n ' ').reverse.dropWhile
      (· == ' ')).reverse) = Json.chars compact 0 j := by
    have hb : ∀ c ∈ List.replicate n ' ', (c == ' ') = true := fun c hc => by
      rw [List.eq_of_mem_replicate hc]
      rfl
    rw [List.reverse_append, List.reverse_replicate, List.dropWhile_append_of_pos hb, hc,
      List.reverse_append]
    simp [hne]
  rw [roundText?, fromUTF8?_blanks, Json.print]
  simp only [Option.bind_eq_bind, Option.bind_some, String.toList_append, String.toList_ofList]
  rw [hd, roundFactors_chars hj he]
  rfl

end Format.Glb

/-! ### Parts of values -/

namespace Value

/-- With another value under a name. -/
def atKey (name : String) (f : Value → Value) : Value → Value
  | map entries => map (entries.map fun
    | (text s, v) => (text s, if s = name then f v else v)
    | entry => entry)
  | v => v

/-- With other items. -/
def atItems (f : Value → Value) : Value → Value
  | list items => list (items.map f)
  | v => v

/-- With another number. -/
def atNumber (f : Float → Float) : Value → Value
  | float v => float (f v)
  | v => v

end Value

namespace Format.Glb

open Number Json

/-- A description with other numbers in the base color of each material. -/
def atFactors (f : Float → Float) : Value → Value :=
  .atKey "materials" (.atItems (.atKey "pbrMetallicRoughness"
    (.atKey factorName (.atItems (.atNumber f)))))

/-! ### Lists and members -/

theorem areFinite_iff {vs : List Json} : areFinite vs = true ↔ ∀ v ∈ vs, v.isFinite = true := by
  induction vs with
  | nil => simp [areFinite]
  | cons v vs ih => rw [areFinite, Bool.and_eq_true, ih, List.forall_mem_cons]

theorem haveFinite_iff {ms : List (String × Json)} :
    haveFinite ms = true ↔ ∀ m ∈ ms, m.2.isFinite = true := by
  induction ms with
  | nil => simp [haveFinite]
  | cons m ms ih => rw [haveFinite, Bool.and_eq_true, ih, List.forall_mem_cons]

theorem areRaw_iff {vs : List Json} : AreRaw vs ↔ ∀ v ∈ vs, IsRaw v := by
  induction vs with
  | nil => simp [AreRaw]
  | cons v vs ih => rw [AreRaw, ih, List.forall_mem_cons]

theorem haveRaw_iff {ms : List (String × Json)} : HaveRaw ms ↔ ∀ m ∈ ms,
    (m.1.toList.all isPlain = true ∧ (m.1 = factorName → IsFactor m.2)) ∧ IsRaw m.2 := by
  induction ms with
  | nil => simp [HaveRaw]
  | cons m ms ih => rw [HaveRaw, ih, List.forall_mem_cons, ← and_assoc]

theorem roundedItems_eq (vs : List Json) : roundedItems vs = vs.map rounded := by
  induction vs with
  | nil => rfl
  | cons v vs ih => rw [roundedItems, ih, List.map_cons]

theorem roundedMembers_eq (ms : List (String × Json)) : roundedMembers ms =
    ms.map fun m => (m.1, if m.1 = factorName then roundedFactor m.2 else rounded m.2) := by
  induction ms with
  | nil => rfl
  | cons m ms ih => rw [roundedMembers, ih, List.map_cons]

theorem itemValues_eq (vs : List Json) : itemValues vs = vs.map toValue := by
  induction vs with
  | nil => rfl
  | cons v vs ih => rw [itemValues, ih, List.map_cons]

/-! ### Parts without factors -/

/-- A part of a description without factors. -/
structure Factorless (j : Json) : Prop where
  raw : IsRaw j
  rounded : rounded j = j

variable {j : Json} {vs : List Json} {ms : List (String × Json)}

@[simp]
theorem factorless_bool (b : Bool) : Factorless (.bool b) := ⟨trivial, rfl⟩

@[simp]
theorem factorless_int (n : Int) : Factorless (.int n) := ⟨trivial, rfl⟩

@[simp]
theorem factorless_float (v : Float) : Factorless (.float v) := ⟨trivial, rfl⟩

@[simp]
theorem factorless_text (s : String) : Factorless (.text s) := ⟨trivial, rfl⟩

theorem factorless_list (h : ∀ v ∈ vs, Factorless v) : Factorless (.list vs) where
  raw := areRaw_iff.2 fun v hv => (h v hv).raw
  rounded := by
    rw [rounded, roundedItems_eq]
    exact congrArg Json.list ((List.map_congr_left fun v hv => (h v hv).rounded).trans (List.map_id vs))

/-- Plain names other than that of a factor. -/
def isOtherName (name : String) : Bool :=
  name.toList.all isPlain && name != factorName

theorem isRaw_object (hn : ∀ m ∈ ms, isOtherName m.1 = true) (h : ∀ m ∈ ms, IsRaw m.2) :
    IsRaw (.object ms) := by
  refine haveRaw_iff.2 fun m hm => ?_
  have ho := hn m hm
  rw [isOtherName, Bool.and_eq_true, bne_iff_ne] at ho
  exact ⟨⟨ho.1, fun hf => absurd hf ho.2⟩, h m hm⟩

theorem rounded_object (hn : ∀ m ∈ ms, isOtherName m.1 = true) :
    rounded (.object ms) = .object (ms.map fun m => (m.1, rounded m.2)) := by
  rw [rounded, roundedMembers_eq]
  refine congrArg Json.object (List.map_congr_left fun m hm => ?_)
  have ho := hn m hm
  rw [isOtherName, Bool.and_eq_true, bne_iff_ne] at ho
  rw [if_neg ho.2]

theorem isOtherName_of_names {names : List String} (hn : ms.map Prod.fst = names)
    (ho : names.all isOtherName = true) : ∀ m ∈ ms, isOtherName m.1 = true := fun _ hm =>
  List.all_eq_true.1 ho _ (hn ▸ List.mem_map_of_mem hm)

theorem factorless_object (names : List String) (hn : ms.map Prod.fst = names)
    (ho : names.all isOtherName = true) (h : ∀ m ∈ ms, Factorless m.2) : Factorless (.object ms) where
  raw := isRaw_object (isOtherName_of_names hn ho) fun m hm => (h m hm).raw
  rounded := by
    rw [rounded_object (isOtherName_of_names hn ho)]
    refine congrArg Json.object ((List.map_congr_left fun m hm => ?_).trans (List.map_id ms))
    rw [(h m hm).rounded]
    rfl

@[simp]
theorem factorless_vecJson (v : Vec3 Float) : Factorless (vecJson v) :=
  factorless_list (by simp)

theorem factorless_accessorJson (k : Nat) (b : Block) : Factorless (accessorJson k b) := by
  rw [accessorJson]
  cases h : b.bounds with
  | none =>
    exact factorless_object ["bufferView", "byteOffset", "componentType", "normalized", "count",
      "type"] rfl (by decide) (by simp [boundsJson])
  | some bounds =>
    exact factorless_object ["bufferView", "byteOffset", "componentType", "normalized", "count",
      "type", "max", "min"] rfl (by decide) (by simp [boundsJson])

theorem factorless_viewJson (offset : Nat) (b : Block) : Factorless (viewJson offset b) :=
  factorless_object ["buffer", "byteOffset", "byteLength", "target"] rfl (by decide) (by simp)

theorem factorless_attributes (first : Nat) (colors : Option Block) :
    Factorless (.object ((["POSITION", "NORMAL"] ++ colors.toList.map
      fun _ => "COLOR_0").zipIdx.map fun (name, i) => (name, Json.int (first + i)))) := by
  cases colors with
  | none => exact factorless_object ["POSITION", "NORMAL"] rfl (by decide) (by simp)
  | some c => exact factorless_object ["POSITION", "NORMAL", "COLOR_0"] rfl (by decide) (by simp)

theorem factorless_meshJson (k first : Nat) (b : Body) : Factorless (meshJson k first b) := by
  refine factorless_object ["primitives", "name"] rfl (by decide)
    (List.forall_mem_cons.2 ⟨factorless_list (List.forall_mem_singleton.2 ?_), by simp [nameOf]⟩)
  refine factorless_object ["attributes", "indices", "mode", "material"] rfl (by decide)
    (List.forall_mem_cons.2 ⟨factorless_attributes first b.colors, ?_⟩)
  simp

theorem factorless_nodeJson (k : Nat) (b : Body) : Factorless (nodeJson k b) := by
  rw [nodeJson]
  split
  · exact factorless_object ["mesh"] rfl (by decide) (by simp)
  · exact factorless_object ["mesh", "name"] rfl (by decide) (by simp)

/-! ### Materials -/

/-- The numbers of the factor of a body. -/
def sharesOf (b : Body) : List Float :=
  (b.base.toList ++ [1.0]).map fun v => Binary32.toFloat (Binary32.ofFloat v)

/-- The material of a body with its shares in some form. -/
def materialWith (share : Float → Json) (b : Body) : Json :=
  .object [
    ("pbrMetallicRoughness", .object [
      (factorName, .list ((sharesOf b).map share)),
      ("metallicFactor", .float 0.0), ("roughnessFactor", .float 0.8)]),
    ("emissiveFactor", .list [.float 0.0, .float 0.0, .float 0.0]),
    ("alphaMode", .text "OPAQUE"), ("doubleSided", .bool true), ("name", nameOf b)]

theorem materialJson_eq (b : Body) : materialJson b = materialWith .float b := by
  rw [materialWith, sharesOf, List.map_map]
  rfl

theorem rounded_materialWith (b : Body) :
    rounded (materialWith .float b) = materialWith (.fixed 6) b := by
  have hs : roundedFactor (.list ((sharesOf b).map Json.float)) =
      .list ((sharesOf b).map (Json.fixed 6)) := by
    rw [roundedFactor, List.map_map]
    rfl
  simp [materialWith, rounded, roundedMembers, roundedItems, hs, nameOf, factorName]

theorem toValue_materialWith (b : Body) : toValue (materialWith (.fixed 6) b) =
    .atKey "pbrMetallicRoughness" (.atKey factorName (.atItems (.atNumber (inPlaces 6))))
      (toValue (materialWith .float b)) := by
  have hs : itemValues ((sharesOf b).map (Json.fixed 6)) =
      (itemValues ((sharesOf b).map Json.float)).map (Value.atNumber (inPlaces 6)) := by
    rw [itemValues_eq, itemValues_eq, List.map_map, List.map_map, List.map_map]
    rfl
  simp [materialWith, toValue, memberValues, Value.atKey, Value.atItems, hs, nameOf, factorName]

theorem isRaw_materialWith (b : Body) : IsRaw (materialWith .float b) := by
  have hf : IsFactor (.list ((sharesOf b).map Json.float)) :=
    ⟨sharesOf b, by simp [sharesOf], rfl⟩
  have hraw : IsRaw (.list ((sharesOf b).map Json.float)) :=
    (factorless_list (List.forall_mem_map.2 fun v _ => factorless_float v)).raw
  have hpbr : IsRaw (.object [(factorName, .list ((sharesOf b).map Json.float)),
      ("metallicFactor", .float 0.0), ("roughnessFactor", .float 0.8)]) :=
    ⟨⟨by decide, fun _ => hf⟩, hraw, ⟨by decide, fun h => absurd h (by decide)⟩, trivial,
      ⟨by decide, fun h => absurd h (by decide)⟩, trivial, trivial⟩
  have hzero : IsRaw (.list [.float 0.0, .float 0.0, .float 0.0]) :=
    ⟨trivial, trivial, trivial, trivial⟩
  have hnames : ["pbrMetallicRoughness", "emissiveFactor", "alphaMode", "doubleSided",
      "name"].all isOtherName = true := by decide
  refine isRaw_object (isOtherName_of_names rfl hnames) ?_
  simp only [List.forall_mem_cons]
  exact ⟨hpbr, hzero, trivial, trivial, trivial, List.forall_mem_nil _⟩

/-! ### Scenes -/

/-- The members of a scene before its materials. -/
def before (bodies : List Body) : List (String × Json) :=
  let blocks := bodies.flatMap Body.blocks
  [("accessors", .list (blocks.zipIdx.map fun (b, k) => accessorJson k b)),
    ("asset", .object [("generator", .text generator), ("version", .text "2.0")]),
    ("bufferViews", .list ((withOffsets Block.byteLength 0 blocks).map fun (k, b) => viewJson k b)),
    ("buffers", .list [.object [("byteLength", .int (totalLength blocks))]])]

/-- The members of a scene behind its materials. -/
def behind (bodies : List Body) : List (String × Json) :=
  let firsts := withOffsets (fun b : Body => b.blocks.length) 0 bodies
  [("meshes", .list (firsts.zipIdx.map fun ((first, b), k) => meshJson k first b)),
    ("nodes", .list (bodies.zipIdx.map fun (b, k) => nodeJson k b)),
    ("scene", .int 0),
    ("scenes", .list [.object [("nodes", .list (bodies.zipIdx.map fun (_, k) => .int k))]])]

/-- The members of a scene with its materials in some form. -/
def membersWith (material : Body → Json) (bodies : List Body) : List (String × Json) :=
  before bodies ++ ("materials", .list (bodies.map material)) :: behind bodies

/-- The description of bodies with their shares in some form. -/
def sceneWith (share : Float → Json) (bodies : List Body) : Json :=
  .object (membersWith (materialWith share) bodies)

theorem sceneJson_eq (bodies : List Body) : sceneJson bodies = sceneWith .float bodies := by
  rw [sceneWith, ← funext materialJson_eq]
  rfl

/-- A member of a scene other than its materials. -/
structure IsOther (name : String) (j : Json) : Prop where
  named : isOtherName name = true
  ne : name ≠ "materials"
  value : Factorless j

theorem isOther_before (bodies : List Body) : ∀ m ∈ before bodies, IsOther m.1 m.2 := by
  simp only [before, List.forall_mem_cons]
  refine ⟨⟨by decide, by decide, ?_⟩, ⟨by decide, by decide, ?_⟩, ⟨by decide, by decide, ?_⟩,
    ⟨by decide, by decide, ?_⟩, List.forall_mem_nil _⟩
  · exact factorless_list (List.forall_mem_map.2 fun _ _ => factorless_accessorJson _ _)
  · exact factorless_object ["generator", "version"] rfl (by decide) (by simp)
  · exact factorless_list (List.forall_mem_map.2 fun _ _ => factorless_viewJson _ _)
  · exact factorless_list (List.forall_mem_singleton.2
      (factorless_object ["byteLength"] rfl (by decide) (by simp)))

theorem isOther_behind (bodies : List Body) : ∀ m ∈ behind bodies, IsOther m.1 m.2 := by
  have hnodes : Factorless (.list (bodies.zipIdx.map fun (_, k) => Json.int k)) :=
    factorless_list (List.forall_mem_map.2 fun _ _ => factorless_int _)
  simp only [behind, List.forall_mem_cons]
  refine ⟨⟨by decide, by decide, ?_⟩, ⟨by decide, by decide, ?_⟩, ⟨by decide, by decide, ?_⟩,
    ⟨by decide, by decide, ?_⟩, List.forall_mem_nil _⟩
  · exact factorless_list (List.forall_mem_map.2 fun _ _ => factorless_meshJson _ _ _)
  · exact factorless_list (List.forall_mem_map.2 fun _ _ => factorless_nodeJson _ _)
  · exact factorless_int 0
  · exact factorless_list (List.forall_mem_singleton.2
      (factorless_object ["nodes"] rfl (by decide) (List.forall_mem_singleton.2 hnodes)))

theorem isOther_of_mem {material : Body → Json} {bodies : List Body} {m : String × Json}
    (hm : m ∈ membersWith material bodies) :
    IsOther m.1 m.2 ∨ m = ("materials", .list (bodies.map material)) := by
  obtain hm | hm := List.mem_append.1 hm
  · exact .inl (isOther_before bodies m hm)
  · obtain hm | hm := List.mem_cons.1 hm
    · exact .inr hm
    · exact .inl (isOther_behind bodies m hm)

theorem isOtherName_membersWith (material : Body → Json) (bodies : List Body) :
    ∀ m ∈ membersWith material bodies, isOtherName m.1 = true := by
  intro m hm
  obtain h | rfl := isOther_of_mem hm
  · exact h.named
  · exact (by decide : isOtherName "materials" = true)

theorem isRaw_sceneJson (bodies : List Body) : IsRaw (sceneJson bodies) := by
  rw [sceneJson_eq, sceneWith]
  refine isRaw_object (isOtherName_membersWith _ bodies) fun m hm => ?_
  obtain h | rfl := isOther_of_mem hm
  · exact h.value.raw
  · exact areRaw_iff.2 (List.forall_mem_map.2 fun b _ => isRaw_materialWith b)

theorem map_membersWith {α : Type} {f g : String × Json → α} {material material' : Body → Json}
    (bodies : List Body) (h : ∀ name v, IsOther name v → f (name, v) = g (name, v))
    (hm : f ("materials", .list (bodies.map material)) =
      g ("materials", .list (bodies.map material'))) :
    (membersWith material bodies).map f = (membersWith material' bodies).map g := by
  rw [membersWith, membersWith, List.map_append, List.map_append, List.map_cons, List.map_cons, hm,
    List.map_congr_left fun m hm => h m.1 m.2 (isOther_before bodies m hm),
    List.map_congr_left fun m hm => h m.1 m.2 (isOther_behind bodies m hm)]

theorem rounded_sceneJson (bodies : List Body) :
    rounded (sceneJson bodies) = sceneWith (.fixed 6) bodies := by
  have hm : rounded (.list (bodies.map (materialWith .float))) =
      .list (bodies.map (materialWith (.fixed 6))) := by
    rw [rounded, roundedItems_eq, List.map_map]
    exact congrArg Json.list (List.map_congr_left fun b _ => rounded_materialWith b)
  rw [sceneJson_eq, sceneWith, rounded_object (isOtherName_membersWith _ bodies)]
  refine congrArg Json.object ((map_membersWith (g := id) bodies (fun name v h => ?_) ?_).trans
    (List.map_id _))
  · rw [h.value.rounded]
    rfl
  · rw [hm]
    rfl

theorem memberValues_eq (ms : List (String × Json)) :
    memberValues ms = ms.map fun m => (.text m.1, toValue m.2) := by
  induction ms with
  | nil => rfl
  | cons m ms ih => rw [memberValues, ih, List.map_cons]

/-- In a rounded scene the numbers of the base colors are in six places, and all else is as it was. -/
theorem toValue_rounded (bodies : List Body) :
    toValue (rounded (sceneJson bodies)) = atFactors (inPlaces 6) (toValue (sceneJson bodies)) := by
  rw [rounded_sceneJson, sceneJson_eq, sceneWith, sceneWith, toValue, toValue, memberValues_eq, memberValues_eq, atFactors,
    Value.atKey, List.map_map]
  refine congrArg Value.map (map_membersWith bodies (fun name v h => ?_) ?_)
  · exact congrArg (Prod.mk (Value.text name)) (if_neg h.ne).symm
  · refine congrArg (Prod.mk (Value.text "materials")) ?_
    rw [if_pos rfl, toValue, toValue, itemValues_eq, itemValues_eq, Value.atItems, List.map_map,
      List.map_map, List.map_map]
    exact congrArg Value.list (List.map_congr_left fun b _ => toValue_materialWith b)

/-! ### Scenes are read back -/

theorem isFinite_accessorJson (k : Nat) (b : Block) : (accessorJson k b).isFinite = b.isBounded := by
  rw [accessorJson, Block.isBounded]
  cases b.bounds with
  | none => rfl
  | some bounds =>
    simp [boundsJson, vecJson, Json.isFinite, haveFinite, areFinite, isBounded, Bool.and_comm,
      Bool.and_assoc]

theorem isFinite_viewJson (offset : Nat) (b : Block) : (viewJson offset b).isFinite = true := rfl

theorem isFinite_meshJson (k first : Nat) (b : Body) : (meshJson k first b).isFinite = true := by
  rw [meshJson]
  cases b.colors <;> rfl

theorem isFinite_nodeJson (k : Nat) (b : Body) : (nodeJson k b).isFinite = true := by
  rw [nodeJson]
  split <;> rfl

theorem isFinite_materialWith (b : Body) :
    (materialWith .float b).isFinite = true ↔ ∀ v ∈ sharesOf b, v.isFinite = true := by
  have h : areFinite ((sharesOf b).map Json.float) = true ↔ ∀ v ∈ sharesOf b, v.isFinite = true :=
    areFinite_iff.trans List.forall_mem_map
  have hzero : (0.0 : Float).isFinite = true := by decide +kernel
  have hrough : (0.8 : Float).isFinite = true := by decide +kernel
  rw [← h]
  simp [materialWith, Json.isFinite, haveFinite, areFinite, nameOf, hzero, hrough]

theorem isFinite_list_map {α : Type} (f : α → Json) (as : List α) :
    (Json.list (as.map f)).isFinite = true ↔ ∀ a ∈ as, (f a).isFinite = true :=
  areFinite_iff.trans List.forall_mem_map

theorem isFinite_before (bodies : List Body) : (∀ m ∈ before bodies, m.2.isFinite = true) ↔
    ∀ b ∈ bodies.flatMap Body.blocks, b.isBounded = true := by
  have hviews : (Json.list ((withOffsets Block.byteLength 0 (bodies.flatMap Body.blocks)).map
      fun (k, b) => viewJson k b)).isFinite = true :=
    (isFinite_list_map _ _).2 fun p _ => isFinite_viewJson p.1 p.2
  have haccessors : (Json.list ((bodies.flatMap Body.blocks).zipIdx.map
      fun (b, k) => accessorJson k b)).isFinite = true ↔
      ∀ b ∈ bodies.flatMap Body.blocks, b.isBounded = true := by
    rw [isFinite_list_map]
    conv_rhs => rw [← List.zipIdx_map_fst 0 (bodies.flatMap Body.blocks), List.forall_mem_map]
    exact forall₂_congr fun p _ => by rw [isFinite_accessorJson]
  simp only [before, List.forall_mem_cons, haccessors, hviews]
  exact ⟨fun h => h.1, fun h => ⟨h, rfl, trivial, rfl, List.forall_mem_nil _⟩⟩

theorem isFinite_behind (bodies : List Body) : ∀ m ∈ behind bodies, m.2.isFinite = true := by
  have hnodes : (Json.list (bodies.zipIdx.map fun (_, k) => .int k)).isFinite = true :=
    (isFinite_list_map _ _).2 fun _ _ => rfl
  simp only [behind, List.forall_mem_cons]
  refine ⟨?_, ?_, rfl, ?_, List.forall_mem_nil _⟩
  · exact (isFinite_list_map _ _).2 fun p _ => isFinite_meshJson p.2 p.1.1 p.1.2
  · exact (isFinite_list_map _ _).2 fun p _ => isFinite_nodeJson p.2 p.1
  · simp only [Json.isFinite, areFinite, haveFinite, Bool.and_true]
    exact hnodes

/-- The numbers of a scene that might not be finite are its bounds and the shares of its colors. -/
theorem isFinite_sceneJson (bodies : List Body) : (sceneJson bodies).isFinite = true ↔
    (∀ b ∈ bodies.flatMap Body.blocks, b.isBounded = true) ∧
      ∀ b ∈ bodies, ∀ v ∈ sharesOf b, v.isFinite = true := by
  have hm : (Json.list (bodies.map (materialWith .float))).isFinite = true ↔
      ∀ b ∈ bodies, ∀ v ∈ sharesOf b, v.isFinite = true :=
    (isFinite_list_map _ _).trans (forall₂_congr fun b _ => isFinite_materialWith b)
  rw [sceneJson_eq, sceneWith, Json.isFinite, haveFinite_iff, membersWith, List.forall_mem_append,
    List.forall_mem_cons, isFinite_before, hm]
  exact and_congr_right fun _ => and_iff_left (isFinite_behind bodies)

end Format.Glb

end Relief
