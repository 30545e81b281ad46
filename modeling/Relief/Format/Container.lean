import Relief.Number.Layout
import Relief.Number.Numeral

/-!
Binary files of two chunks, a text and words. A file is saved once more with the factors of its colors in
six places.
-/
namespace Relief.Format.Glb

open Relief.Number

/-! ### Chunks -/

/-- The bytes of a word, the least first. -/
def wordBytes (w : UInt32) : List UInt8 :=
  [w, w >>> 8, w >>> 16, w >>> 24].map UInt32.toUInt8

def natBytes (n : Nat) : List UInt8 :=
  wordBytes (UInt32.ofNat n)

/-- A text as whole words, with blanks at the end. -/
def textBytes (text : String) : List UInt8 :=
  let bytes := text.toUTF8.data.toList
  bytes ++ List.replicate ((4 - bytes.length % 4) % 4) 0x20

def magic : UInt32 := 0x46546C67
def fileVersion : UInt32 := 2
def textChunk : UInt32 := 0x4E4F534A
def wordChunk : UInt32 := 0x004E4942

def chunk (kind : UInt32) (bytes : List UInt8) : List UInt8 :=
  natBytes bytes.length ++ wordBytes kind ++ bytes

def headerLength : Nat := 12
def chunkHeaderLength : Nat := 8

/-- A file of chunks. Its length has to fit a word. -/
def file? (chunks : List UInt8) : Option (List UInt8) :=
  let length := headerLength + chunks.length
  if length < Nat.pow 2 32 then
    some (wordBytes magic ++ wordBytes fileVersion ++ natBytes length ++ chunks)
  else none

/-- The word at a place. -/
def wordAt? (bytes : List UInt8) (offset : Nat) : Option UInt32 :=
  match bytes.drop offset with
  | a :: b :: c :: d :: _ => some (UInt32.ofNat
      (a.toNat + 256 * b.toNat + 65536 * c.toNat + 16777216 * d.toNat))
  | _ => none

/-! ### Factors -/

def factorName : String := "baseColorFactor"

/-- What stands before the numbers of a factor. -/
def factorMark : List Char :=
  '"' :: factorName.toList ++ ['"', ':', '[']

/-- The numbers of a factor, if one starts here. -/
def factorAt? (cs : List Char) : Option (List Char) := do
  let after ← factorMark.isPrefixOf? cs
  let numbers := after.takeWhile (· != ']')
  if numbers.isEmpty || numbers.length = after.length then none else some numbers

/-- Numbers between commas, in six places. -/
def roundNumbers (cs : List Char) : Option (List Char) := do
  let vs ← (cs.splitOn ',').mapM fun part => readFloat? (String.ofList part)
  return List.intercalate [','] (vs.map fun v => (fixedText 6 v).toList)

/-- A text whose factors have six places. The first `skip` characters have been dealt with. -/
def roundFactors : (skip : Nat) → List Char → Option (List Char)
  | _, [] => some []
  | skip + 1, _ :: cs => roundFactors skip cs
  | 0, c :: cs =>
    match factorAt? (c :: cs) with
    | some numbers => do
      let rounded ← roundNumbers numbers
      return factorMark ++ rounded ++ ']' :: (← roundFactors (factorMark.length + numbers.length) cs)
    | none => do return c :: (← roundFactors 0 cs)

/-! ### Saving once more -/

/-- Why a file is not saved once more. -/
inductive ResaveError where
  /-- The first chunk is no text. -/
  | malformed
  /-- A header that is cut off, a text that is none, or a factor that is no number. -/
  | unreadable
  | tooLong
  deriving DecidableEq, Repr

/-- The bytes of a text with rounded factors. Blanks at its end are left out. -/
def roundText? (bytes : List UInt8) : Option (List UInt8) := do
  let text ← String.fromUTF8? ⟨bytes.toArray⟩
  let cs := (text.toList.reverse.dropWhile (· == ' ')).reverse
  return textBytes (String.ofList (← roundFactors 0 cs))

/-- A file with rounded factors in its text. What follows the text stays as it is. -/
def resave (bytes : List UInt8) : Except ResaveError (List UInt8) := do
  let some length := wordAt? bytes headerLength | throw .unreadable
  let some kind := wordAt? bytes (headerLength + 4) | throw .unreadable
  if kind ≠ textChunk then throw .malformed
  let after := bytes.drop (headerLength + chunkHeaderLength)
  let some text := roundText? (after.take length.toNat) | throw .unreadable
  let some bytes := file? (chunk textChunk text ++ after.drop length.toNat) | throw .tooLong
  return bytes

end Relief.Format.Glb
