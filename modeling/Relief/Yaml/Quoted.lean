import Relief.Number.Numeral
import Relief.Yaml.Cause
import Relief.Yaml.Cursor
import Relief.Yaml.Wording

/-!
Texts in quotes. Where one is broken over lines, one break is a space and more are one less. In double
quotes a backslash begins an escape.
-/
namespace Relief.Yaml

open Relief.Number

/-- Escapes of one letter and what they stand for. -/
def letterEscapes : List (Char × Char) :=
  [('0', '\x00'), ('a', '\x07'), ('b', '\x08'), ('t', '\t'), ('\t', '\t'), ('n', '\n'),
   ('v', '\x0b'), ('f', '\x0c'), ('r', '\r'), ('e', '\x1b'), (' ', ' '), ('"', '"'),
   ('/', '/'), ('\\', '\\'), ('N', '\x85'), ('_', '\xa0'), ('L', '\u2028'), ('P', '\u2029')]

/-- Escapes by number and how many digits they have. -/
def numberEscapes : List (Char × Nat) :=
  [('x', 2), ('u', 4), ('U', 8)]

def lastCodePoint : Nat := 0x10FFFF
def lastWord : Nat := 0x7FFFFFFF

/-- The code point of some digits in base sixteen. -/
def codePoint (digits : List Char) : Except Cause Nat := do
  let code := digitsIn 16 (← orMalformed (digits.mapM (digitIn? 16)))
  if lastWord < code then .error .hugeCodePoint
  else if lastCodePoint < code then .error .codePoint
  else return code

/-- The breaks at the cursor, with blanks around them. No document starts or ends in between. -/
def quotedBreaks : (limit : Nat) → Cursor → Except Cause (List Char × Cursor)
  | 0, c => .ok ([], c)
  | limit + 1, c =>
    if isAnyMarker c.rest then .error .malformed
    else
      let c := c.skip isBlank
      match c.lineBreak? with
      | none => .ok ([], c)
      | some (b, c) => (quotedBreaks limit c).map fun (bs, c) => (b :: bs, c)

/-- What a first break and further ones stand for. -/
def foldBreaks (first : Char) (more : List Char) : List Char :=
  if first != '\n' then first :: more else if more.isEmpty then [' '] else more

/-- The blanks and breaks between two words, as what they stand for. -/
def quotedGap (limit : Nat) (c : Cursor) : Except Cause (List Char × Cursor) :=
  let (blanks, c) := c.span isBlank
  if c.rest.isEmpty then .error .malformed
  else match c.lineBreak? with
    | none => .ok (blanks, c)
    | some (b, c) => (quotedBreaks limit c).map fun (bs, c) => (foldBreaks b bs, c)

/-- What the escape at the cursor stands for. A break that is escaped joins two lines. -/
def escapeAt (limit : Nat) (c : Cursor) : Except Cause (List Nat × Cursor) :=
  match c.step.rest with
  | [] => .error .malformed
  | k :: cs =>
    match letterEscapes.lookup k, numberEscapes.lookup k, c.step.lineBreak? with
    | some ch, _, _ => .ok ([ch.toNat], c.advance 2)
    | none, some n, _ =>
      if (cs.take n).length = n then
        (codePoint (cs.take n)).map fun code => ([code], c.advance (n + 2))
      else .error .malformed
    | none, none, some (_, c) =>
      (quotedBreaks limit c).map fun (bs, c) => (bs.map Char.toNat, c)
    | none, none, none => .error .malformed

/-- A word: up to a blank, a break or the closing quote. A single quote that is doubled is one. -/
def quotedWord (quote : Char) : (limit : Nat) → Cursor → Except Cause (List Nat × Cursor)
  | 0, c => .ok ([], c)
  | limit + 1, c =>
    match c.rest with
    | [] => .ok ([], c)
    | ch :: cs =>
      let go (read : List Nat × Cursor) :=
        (quotedWord quote limit read.2).map fun (more, c) => (read.1 ++ more, c)
      if isBlank ch || isBreak ch then .ok ([], c)
      else if ch == quote then
        if quote == '\'' && cs.head? == some quote then go ([ch.toNat], c.advance 2)
        else .ok ([], c)
      else if quote == '"' && ch == '\\' then (escapeAt limit c).bind go
      else go ([ch.toNat], c.step)

/-- Words and what stands between them, up to the closing quote. -/
def quotedWords (quote : Char) : (limit : Nat) → Cursor → Except Cause (List Nat × Cursor)
  | 0, _ => .error .malformed
  | limit + 1, c => do
    let (word, c) ← quotedWord quote limit c
    if c.startsWith quote then return (word, c.step)
    else
      let (gap, c) ← quotedGap limit c
      let (more, c) ← quotedWords quote limit c
      return (word ++ gap.map Char.toNat ++ more, c)

/-- The text in quotes at the cursor. The limit is more than it has characters. -/
def quotedScalar (quote : Char) (limit : Nat) (c : Cursor) : Except Cause (Wording × Cursor) :=
  (quotedWords quote limit c.step).map fun (codes, c) => (Wording.ofCodes codes, c)

end Relief.Yaml
