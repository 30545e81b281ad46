import Mathlib
import Relief.Proofs.Format.Factor

/-!
Files of two chunks are taken apart again. A file that is saved once more keeps its words, whatever becomes of
its text.
-/
namespace Relief.Format.Glb

open Relief.Number

/-! ### Parts of a file -/

/-- What a file holds: the length that it states, its text, and its words. -/
structure Parts where
  length : Nat
  text : List UInt8
  words : List UInt8
  deriving DecidableEq

/-- The chunk of a kind at the start of some bytes, and what follows. -/
def chunk? (kind : UInt32) (bytes : List UInt8) : Option (List UInt8 × List UInt8) :=
  if wordAt? bytes 4 = some kind then do
    let length ← wordAt? bytes 0
    let part ← slice? chunkHeaderLength length.toNat bytes
    return (part, bytes.drop (chunkHeaderLength + length.toNat))
  else none

/-- The parts of a file, behind which there is nothing. -/
def parts? (bytes : List UInt8) : Option Parts :=
  if wordAt? bytes 0 = some magic ∧ wordAt? bytes 4 = some fileVersion then do
    let length ← wordAt? bytes 8
    let (text, rest) ← chunk? textChunk (bytes.drop headerLength)
    let (words, rest) ← chunk? wordChunk rest
    if rest.isEmpty then some ⟨length.toNat, text, words⟩ else none
  else none

variable {bytes text words rest : List UInt8} {kind : UInt32} {n : Nat} {p : Parts}

/-! ### Words -/

theorem wordAt?_wordBytes (w : UInt32) (bytes : List UInt8) :
    wordAt? (wordBytes w ++ bytes) 0 = some w :=
  congrArg some (ofNat_wordBytes w)

theorem wordAt?_append (front bytes : List UInt8) (h : front.length = n) :
    wordAt? (front ++ bytes) n = wordAt? bytes 0 := by
  rw [wordAt?, wordAt?, ← h, List.drop_left, List.drop_zero]

theorem wordAt?_drop (bytes : List UInt8) (k n : Nat) :
    wordAt? (bytes.drop k) n = wordAt? bytes (k + n) := by
  rw [wordAt?, wordAt?, List.drop_drop]

theorem toNat_ofNat (h : n < 2 ^ 32) : (UInt32.ofNat n).toNat = n :=
  UInt32.toNat_ofNat_of_lt' h

/-! ### Chunks -/

theorem length_chunk (kind : UInt32) (bytes : List UInt8) :
    (chunk kind bytes).length = chunkHeaderLength + bytes.length := by
  rw [chunk, List.length_append]
  rfl

theorem chunk?_chunk (kind : UInt32) (h : text.length < 2 ^ 32) (rest : List UInt8) :
    chunk? kind (chunk kind text ++ rest) = some (text, rest) := by
  have hlen : (natBytes text.length ++ wordBytes kind).length = chunkHeaderLength := rfl
  have h0 : wordAt? (chunk kind text ++ rest) 0 = some (UInt32.ofNat text.length) := by
    rw [chunk, List.append_assoc, List.append_assoc, natBytes, wordAt?_wordBytes]
  have h4 : wordAt? (chunk kind text ++ rest) 4 = some kind := by
    rw [chunk, List.append_assoc, List.append_assoc, wordAt?_append (n := 4) _ _ rfl,
      wordAt?_wordBytes]
  have hs : slice? chunkHeaderLength text.length (chunk kind text ++ rest) = some text := by
    rw [chunk, List.append_assoc, ← hlen, slice?_eq, List.drop_left, List.take_left]
    simp only [List.length_append]
    omega
  have hd : (chunk kind text ++ rest).drop (chunkHeaderLength + text.length) = rest := by
    rw [← hlen, ← List.length_append, chunk, List.drop_left]
  rw [chunk?, if_pos h4, h0]
  simp only [toNat_ofNat h, hs, hd, Option.bind_eq_bind, Option.bind_some]
  rfl

/-- How a chunk of a length stands in some bytes. -/
structure Chunked (kind : UInt32) (bytes part rest : List UInt8) (w : UInt32) : Prop where
  length : wordAt? bytes 0 = some w
  kind : wordAt? bytes 4 = some kind
  within : chunkHeaderLength + w.toNat ≤ bytes.length
  part : (bytes.drop chunkHeaderLength).take w.toNat = part
  rest : (bytes.drop chunkHeaderLength).drop w.toNat = rest

theorem chunked_of_chunk? {part : List UInt8} (h : chunk? kind bytes = some (part, rest)) :
    ∃ length, Chunked kind bytes part rest length := by
  rw [chunk?] at h
  split at h
  · next hk =>
    obtain ⟨w, hl, h⟩ := Option.bind_eq_some_iff.1 h
    obtain ⟨part', hs, h⟩ := Option.bind_eq_some_iff.1 h
    obtain ⟨rfl, rfl⟩ := Prod.mk.inj (Option.some.inj h)
    rw [slice?] at hs
    split at hs
    · next hle => exact ⟨w, hl, hk, hle, Option.some.inj hs, List.drop_drop⟩
    · cases hs
  · cases h

theorem length_of_chunk? (h : chunk? kind bytes = some (words, [])) :
    bytes.length = chunkHeaderLength + words.length := by
  obtain ⟨length, hc⟩ := chunked_of_chunk? h
  have hle := List.drop_eq_nil_iff.1 hc.rest
  have hw := congrArg List.length hc.part
  have hin := hc.within
  simp only [List.length_drop, List.length_take] at hle hw
  omega

/-! ### Files -/

theorem file?_eq_some_iff {chunks : List UInt8} :
    file? chunks = some bytes ↔ headerLength + chunks.length < 2 ^ 32 ∧
      wordBytes magic ++ wordBytes fileVersion ++ natBytes (headerLength + chunks.length) ++ chunks =
        bytes := by
  change (if headerLength + chunks.length < 2 ^ 32 then _ else _) = _ ↔ _
  split
  · next h => rw [Option.some.injEq, and_iff_right h]
  · next h => exact ⟨fun hn => absurd hn (by simp), fun hn => absurd hn.1 h⟩

theorem length_lt_of_file? (h : file? (chunk kind text ++ rest) = some bytes) :
    text.length < 2 ^ 32 := by
  have hlt := (file?_eq_some_iff.1 h).1
  rw [List.length_append, length_chunk] at hlt
  omega

theorem drop_of_file? {chunks : List UInt8} (h : file? chunks = some bytes) :
    bytes.drop headerLength = chunks := by
  obtain ⟨-, rfl⟩ := file?_eq_some_iff.1 h
  exact List.drop_left' rfl

/-- The first chunk of a file is found behind its header. -/
theorem chunk?_of_file? (h : file? (chunk kind text ++ rest) = some bytes) :
    chunk? kind (bytes.drop headerLength) = some (text, rest) := by
  rw [drop_of_file? h, chunk?_chunk kind (length_lt_of_file? h)]

/-- A file with a text and a chunk of words behind it has these parts. -/
theorem parts?_of_file? (h : file? (chunk textChunk text ++ rest) = some bytes)
    (hr : chunk? wordChunk rest = some (words, [])) :
    parts? bytes = some ⟨bytes.length, text, words⟩ := by
  have ht := chunk?_of_file? h
  obtain ⟨hlt, hb⟩ := file?_eq_some_iff.1 h
  generalize chunk textChunk text ++ rest = chunks at hlt hb
  have hlen : bytes.length = headerLength + chunks.length := by
    rw [← hb, List.length_append]
    rfl
  have h0 : wordAt? bytes 0 = some magic := by
    rw [← hb, List.append_assoc, List.append_assoc, wordAt?_wordBytes]
  have h4 : wordAt? bytes 4 = some fileVersion := by
    rw [← hb, List.append_assoc, List.append_assoc, wordAt?_append (n := 4) _ _ rfl,
      wordAt?_wordBytes]
  have h8 : wordAt? bytes 8 = some (UInt32.ofNat (headerLength + chunks.length)) := by
    rw [← hb, List.append_assoc, wordAt?_append (n := 8) _ _ rfl, natBytes, wordAt?_wordBytes]
  rw [parts?, if_pos ⟨h0, h4⟩, h8, hlen]
  simp only [ht, hr, Option.bind_eq_bind, Option.bind_some, toNat_ofNat hlt]
  rfl

/-- Both chunks of a file with parts. -/
theorem chunk?_of_parts? (h : parts? bytes = some p) :
    ∃ rest, chunk? textChunk (bytes.drop headerLength) = some (p.text, rest) ∧
      chunk? wordChunk rest = some (p.words, []) := by
  rw [parts?] at h
  split at h
  · obtain ⟨length, -, h⟩ := Option.bind_eq_some_iff.1 h
    obtain ⟨⟨text, rest⟩, ht, h⟩ := Option.bind_eq_some_iff.1 h
    obtain ⟨⟨words, rest'⟩, hw, h⟩ := Option.bind_eq_some_iff.1 h
    dsimp only at h
    split at h
    · next he =>
      cases h
      rw [List.isEmpty_iff.1 he] at hw
      exact ⟨rest, ht, hw⟩
    · cases h
  · cases h

/-! ### Saving once more -/

/-- What a file becomes whose text becomes another. -/
theorem resave_of_chunk? {part : List UInt8}
    (h : chunk? textChunk (bytes.drop headerLength) = some (part, rest))
    (ht : roundText? part = some text) :
    resave bytes = match file? (chunk textChunk text ++ rest) with
      | some saved => .ok saved
      | none => .error .tooLong := by
  obtain ⟨length, hc⟩ := chunked_of_chunk? h
  have h12 : wordAt? bytes headerLength = some length := by
    rw [← Nat.add_zero headerLength, ← wordAt?_drop, hc.length]
  have h16 : wordAt? bytes (headerLength + 4) = some textChunk := by
    rw [← wordAt?_drop, hc.kind]
  have hdrop : (bytes.drop headerLength).drop chunkHeaderLength =
      bytes.drop (headerLength + chunkHeaderLength) := List.drop_drop
  have hpart := hc.part
  have hrest := hc.rest
  rw [hdrop] at hpart hrest
  rw [resave, h12, h16]
  simp only [ne_eq, not_true_eq_false, if_false, hpart, ht, hrest]
  cases file? (chunk textChunk text ++ rest) <;> rfl

/-- The length of a file with two chunks. -/
def fileLength (text words : List UInt8) : Nat :=
  headerLength + (chunkHeaderLength + text.length) + (chunkHeaderLength + words.length)

/-- A file that is saved once more has the same words, unless it becomes too long. -/
theorem resave_parts (h : parts? bytes = some p) (ht : roundText? p.text = some text) :
    if fileLength text p.words < 2 ^ 32 then
      ∃ saved, resave bytes = .ok saved ∧ parts? saved = some ⟨saved.length, text, p.words⟩
    else resave bytes = .error .tooLong := by
  obtain ⟨rest, hc, hw⟩ := chunk?_of_parts? h
  have hlen : headerLength + (chunk textChunk text ++ rest).length = fileLength text p.words := by
    rw [List.length_append, length_chunk, length_of_chunk? hw, fileLength, ← Nat.add_assoc]
  rw [resave_of_chunk? hc ht, ← hlen]
  cases hf : file? (chunk textChunk text ++ rest) with
  | some saved =>
    rw [if_pos (file?_eq_some_iff.1 hf).1]
    exact ⟨saved, rfl, parts?_of_file? hf hw⟩
  | none =>
    rw [if_neg]
    intro hlt
    rw [file?_eq_some_iff.2 ⟨hlt, rfl⟩] at hf
    cases hf

end Relief.Format.Glb
