import Mathlib
import Relief.Proofs.Format.SceneFactor
import Relief.Proofs.Outcome

/-!
Scenes as files: which surfaces make one, and which file they make.
-/
namespace Relief.Format.Glb

open Relief.Number
open Json (compact)

variable {mode : Color.Mode} {bodies : List Body} {surfaces : List Surface} {j : Json}
  {words bytes : List UInt8}

/-- A description and words fit a file. -/
def Fits (j : Json) (words : List UInt8) : Prop :=
  fileLength (textBytes (j.print compact)) words < 2 ^ 32

/-- The chunks of a description and of words. -/
def chunksOf (j : Json) (words : List UInt8) : List UInt8 :=
  chunk textChunk (textBytes (j.print compact)) ++ chunk wordChunk words

theorem length_chunksOf (j : Json) (words : List UInt8) : headerLength + (chunksOf j words).length =
    fileLength (textBytes (j.print compact)) words := by
  rw [chunksOf, List.length_append, length_chunk, length_chunk, fileLength, ← Nat.add_assoc]

theorem file?_of_fits (h : Fits j words) : ∃ bytes, file? (chunksOf j words) = some bytes :=
  ⟨_, file?_eq_some_iff.2 ⟨by rwa [length_chunksOf], rfl⟩⟩

theorem file?_of_not_fits (h : ¬ Fits j words) : file? (chunksOf j words) = none := by
  refine if_neg ?_
  rw [length_chunksOf]
  exact h

theorem save_of_fits (hf : j.isFinite = true) (h : file? (chunksOf j words) = some bytes) :
    save j words = .ok bytes := by
  rw [chunksOf] at h
  rw [save, if_pos hf, h]

theorem save_of_not_fits (h : ¬ (j.isFinite = true ∧ Fits j words)) :
    save j words = .error .tooLarge := by
  rw [save]
  split
  · next hf =>
    have hn := file?_of_not_fits (not_and.1 h hf)
    rw [chunksOf] at hn
    rw [hn]
  · rfl

/-- A raw description that has been saved is saved once more with rounded factors. -/
theorem resave_of_save (hj : j.IsRaw) (hf : j.isFinite = true)
    (h : file? (chunksOf j words) = some bytes) :
    resave bytes = match file? (chunksOf j.rounded words) with
      | some saved => .ok saved
      | none => .error .tooLong :=
  resave_of_chunk? (chunk?_of_file? h)
    (roundText?_of_text (isText_textBytes j) hj (Json.isExact_of_isFinite j hj hf))

theorem ofSurfacesBy_eq (save : Json → List UInt8 → Except Error (List UInt8)) (hn : surfaces ≠ [])
    (hm : surfaces.mapM (bodyOf mode) = .ok bodies) : ofSurfacesBy save mode surfaces =
      (save (sceneJson bodies) (chunkOf bodies)).bind fun bytes =>
        (resave bytes).mapError .ofResave := by
  have hr : require surfaces = .ok surfaces := if_neg (by simpa using hn)
  rw [ofSurfacesBy, hr]
  change ((surfaces.mapM (bodyOf mode)).mapError Error.color).bind _ = _
  rw [hm]
  rfl

/-- What makes a file of a scene. -/
structure Writable (bodies : List Body) : Prop where
  finite : (sceneJson bodies).isFinite = true
  fits : Fits (sceneJson bodies) (chunkOf bodies)
  fits_rounded : Fits (sceneJson bodies).rounded (chunkOf bodies)

theorem ofSurfaces_of_writable (hn : surfaces ≠ []) (hm : surfaces.mapM (bodyOf mode) = .ok bodies)
    (h : Writable bodies) : ∃ bytes, ofSurfaces mode surfaces = .ok bytes ∧
      file? (chunksOf (sceneJson bodies).rounded (chunkOf bodies)) = some bytes := by
  obtain ⟨library, hl⟩ := file?_of_fits h.fits
  obtain ⟨bytes, hb⟩ := file?_of_fits h.fits_rounded
  refine ⟨bytes, ?_, hb⟩
  rw [ofSurfaces, ofSurfacesBy_eq save hn hm, save_of_fits h.finite hl, Except.bind,
    resave_of_save (isRaw_sceneJson bodies) h.finite hl, hb]
  rfl

theorem ofSurfaces_of_not_writable (hn : surfaces ≠ [])
    (hm : surfaces.mapM (bodyOf mode) = .ok bodies) (h : ¬ Writable bodies) :
    ofSurfaces mode surfaces = .error .tooLarge := by
  rw [ofSurfaces, ofSurfacesBy_eq save hn hm]
  by_cases hs : (sceneJson bodies).isFinite = true ∧ Fits (sceneJson bodies) (chunkOf bodies)
  · obtain ⟨library, hl⟩ := file?_of_fits hs.2
    have hr : file? (chunksOf (sceneJson bodies).rounded (chunkOf bodies)) = none :=
      file?_of_not_fits fun hr => h ⟨hs.1, hs.2, hr⟩
    rw [save_of_fits hs.1 hl, Except.bind, resave_of_save (isRaw_sceneJson bodies) hs.1 hl, hr]
    rfl
  · rw [save_of_not_fits hs]
    rfl

/-! ### Short texts -/

theorem length_utf8_le (cs : List Char) :
    (String.ofList cs).toUTF8.data.toList.length ≤ 4 * cs.length := by
  change (String.ofList cs).toByteArray.data.toList.length ≤ _
  have hc : ∀ c ∈ cs, (String.utf8EncodeChar c).length ≤ 4 := fun c _ => by
    rw [String.length_utf8EncodeChar]
    exact Char.utf8Size_le_four c
  have hsum := List.sum_le_card_nsmul (cs.map fun c => (String.utf8EncodeChar c).length) 4
    (List.forall_mem_map.2 hc)
  rw [String.toByteArray_ofList, List.utf8Encode, List.data_toByteArray, List.toList_toArray,
    List.length_flatMap]
  simpa [Nat.mul_comm] using hsum

theorem fits_of_length (h : 4 * (Json.chars compact 0 j).length + words.length < 2 ^ 31) :
    Fits j words := by
  have hle := length_utf8_le (Json.chars compact 0 j)
  rw [Fits, fileLength, textBytes, Json.print]
  simp only [List.length_append, List.length_replicate, headerLength, chunkHeaderLength]
  omega

/-- Whether surfaces make a scene of finite numbers whose file is short. -/
def isShort (mode : Color.Mode) (surfaces : List Surface) : Bool :=
  match surfaces.mapM (bodyOf mode) with
  | .ok bodies =>
    let shortOf (j : Json) : Bool :=
      4 * (Json.chars compact 0 j).length + (chunkOf bodies).length < 2 ^ 31
    !surfaces.isEmpty && (sceneJson bodies).isFinite && shortOf (sceneJson bodies) &&
      shortOf (sceneJson bodies).rounded
  | .error _ => false

theorem writable_of_isShort (h : isShort mode surfaces = true) : surfaces ≠ [] ∧
    ∃ bodies, surfaces.mapM (bodyOf mode) = .ok bodies ∧ Writable bodies := by
  unfold isShort at h
  split at h
  · next bodies hm =>
    simp only [Bool.and_eq_true, Bool.not_eq_true', List.isEmpty_eq_false_iff,
      decide_eq_true_eq] at h
    exact ⟨h.1.1.1, bodies, hm, h.1.1.2, fits_of_length h.1.2, fits_of_length h.2⟩
  · cases h

end Relief.Format.Glb
