import Mathlib
import Relief.Proofs.Format.Saved

/-!
What a file is after it has been saved once more, whatever library has made it: its words are the same, and of
its description only the numbers of the base colors have changed.
-/
namespace Relief.Format.Glb

open Relief.Number

variable {write : Json → List UInt8 → Except Error (List UInt8)} {mode : Color.Mode}
  {surfaces : List Surface} {bodies : List Body} {written : List UInt8}

/-- A file of a description: two chunks of whole words, of which the first is the description in its
compact form. -/
structure IsFileOf (description : Json) (bytes : List UInt8) (p : Parts) : Prop where
  finite : description.isFinite = true
  parts : parts? bytes = some p
  length : p.length = bytes.length
  text : IsText description p.text
  text_aligned : p.text.length % 4 = 0
  words_aligned : p.words.length % 4 = 0

/-- All files that are made are files of their descriptions. -/
def IsLibrary (write : Json → List UInt8 → Except Error (List UInt8)) : Prop :=
  ∀ description words bytes, write description words = .ok bytes →
    words.length % 4 = 0 → ∃ p, IsFileOf description bytes p

theorem length_chunkOf_mod (bodies : List Body) : (chunkOf bodies).length % 4 = 0 := by
  have h : ∀ n ∈ (bodies.flatMap Body.blocks).map Block.byteLength, 4 ∣ n :=
    List.forall_mem_map.2 fun b _ => Nat.dvd_mul_right 4 b.words.length
  rw [length_chunkOf]
  exact Nat.mod_eq_zero_of_dvd (List.dvd_sum h)

theorem isLibrary_save : IsLibrary save := by
  intro description words bytes h hw
  by_cases hs : description.isFinite = true ∧ Fits description words
  · obtain ⟨bytes', hb⟩ := file?_of_fits hs.2
    rw [save_of_fits hs.1 hb] at h
    cases h
    have hlt : words.length < 2 ^ 32 := by
      have hf := hs.2
      rw [Fits, fileLength] at hf
      omega
    have hc := chunk?_chunk wordChunk hlt []
    rw [List.append_nil] at hc
    exact ⟨_, hs.1, parts?_of_file? hb hc, rfl, isText_textBytes description, length_textBytes_mod _, hw⟩
  · rw [save_of_not_fits hs] at h
    cases h

/-- A file of surfaces holds what the library has written, with base colors in six places. -/
theorem saved_once_more (hwrite : IsLibrary write) (hn : surfaces ≠ [])
    (hm : surfaces.mapM (bodyOf mode) = .ok bodies)
    (hl : write (sceneJson bodies) (chunkOf bodies) = .ok written) :
    ∃ p text, parts? written = some p ∧ description? p.text = some (sceneJson bodies).toValue ∧
      description? text = some (atFactors (Json.inPlaces 6) (sceneJson bodies).toValue) ∧
      text.length % 4 = 0 ∧ p.words.length % 4 = 0 ∧
      if fileLength text p.words < 2 ^ 32 then
        ∃ bytes, ofSurfacesBy write mode surfaces = .ok bytes ∧
          parts? bytes = some ⟨bytes.length, text, p.words⟩
      else ofSurfacesBy write mode surfaces = .error .tooLarge := by
  obtain ⟨p, hp⟩ := hwrite _ _ _ hl (length_chunkOf_mod bodies)
  have hraw := isRaw_sceneJson bodies
  have hexact := Json.isExact_of_isFinite _ hraw hp.finite
  have hround := roundText?_of_text hp.text hraw hexact
  have hvalue : description? (textBytes ((sceneJson bodies).rounded.print Json.compact)) =
      some (atFactors (Json.inPlaces 6) (sceneJson bodies).toValue) := by
    rw [description?_of_text (isText_textBytes _) (Json.isExact_rounded _ hexact), toValue_rounded]
  refine ⟨p, _, hp.parts, description?_of_text hp.text hexact, hvalue, length_textBytes_mod _,
    hp.words_aligned, ?_⟩
  have hr := resave_parts hp.parts hround
  rw [ofSurfacesBy_eq write hn hm, hl, Except.bind]
  split at hr
  · next hlt =>
    obtain ⟨bytes, hb, hparts⟩ := hr
    rw [if_pos hlt, hb]
    exact ⟨bytes, rfl, hparts⟩
  · next hlt =>
    rw [if_neg hlt, hr]
    rfl

/-- A cell whose expression looks like a factor. -/
def factorCell : List Surface :=
  [cellEquation "\"baseColorFactor\":[0.5]" 0.0 0.5 1.0 2.0].filterMap Equation.surface?

theorem isShort_factorCell : isShort .solid factorCell = true := by decide +kernel

theorem saved_once_more_cell : ∃ bodies written, IsLibrary save ∧ factorCell ≠ [] ∧
    factorCell.mapM (bodyOf .solid) = .ok bodies ∧
    save (sceneJson bodies) (chunkOf bodies) = .ok written ∧
    ∃ p text, parts? written = some p ∧ description? p.text = some (sceneJson bodies).toValue ∧
      description? text = some (atFactors (Json.inPlaces 6) (sceneJson bodies).toValue) ∧
      text.length % 4 = 0 ∧ p.words.length % 4 = 0 ∧
      if fileLength text p.words < 2 ^ 32 then
        ∃ bytes, ofSurfacesBy save .solid factorCell = .ok bytes ∧
          parts? bytes = some ⟨bytes.length, text, p.words⟩
      else ofSurfacesBy save .solid factorCell = .error .tooLarge := by
  obtain ⟨hn, bodies, hm, hw⟩ := writable_of_isShort isShort_factorCell
  obtain ⟨written, hl⟩ := file?_of_fits hw.fits
  have hl := save_of_fits hw.finite hl
  exact ⟨bodies, written, isLibrary_save, hn, hm, hl, saved_once_more isLibrary_save hn hm hl⟩

end Relief.Format.Glb
