import Relief.Number.Numeral
import Relief.Yaml.Cause
import Relief.Yaml.Cursor
import Relief.Yaml.Quoted

/-!
Plain texts, and texts in blocks, which keep their lines or fold them.
-/
namespace Relief.Yaml

open Relief.Number

def isFlowIndicator (c : Char) : Bool :=
  c == ',' || c == '[' || c == ']' || c == '\x7b' || c == '\x7d'

def indicators : String := "-?:,[]\x7b\x7d#&*!|>'\"%@`"

/-! ### Plain texts -/

/-- Whether a plain text may start here. -/
def startsPlain (v : Version) (flow : Bool) : List Char → Bool
  | [] => false
  | c :: cs =>
    if !(isBlank c || isBreak c || indicators.toList.contains c) then true
    else if c == '-' || (!flow && (c == '?' || c == ':')) then !atGap cs
    else v == .v12 && flow && c == ':' && !cs.head?.any isBlank

/-- Whether a word of a plain text ends before a character. -/
def endsPlain (v : Version) (flow : Bool) (c : Char) (cs : List Char) : Bool :=
  if c == ':' then atGap cs
  else if c == '?' then flow && v == .v11
  else isBlank c || endsLine c || (flow && isFlowIndicator c)

def plainLength (v : Version) (flow : Bool) : List Char → Nat
  | [] => 0
  | c :: cs => if endsPlain v flow c cs then 0 else plainLength v flow cs + 1

/-- Further breaks within a plain text, none if a document starts or ends behind one. -/
def plainBreaks : (limit : Nat) → Cursor → Option (List Char) × Cursor
  | 0, c => (some [], c)
  | limit + 1, c =>
    let c := c.skipSpaces
    match c.lineBreak? with
    | none => (some [], c)
    | some (b, c) =>
      if isAnyMarker c.rest then (none, c)
      else
        let (bs, c) := plainBreaks limit c
        (bs.map (b :: ·), c)

/-- What stands between two words of a plain text, and whether it has a break. -/
def plainGap (limit : Nat) (c : Cursor) : List Char × Cursor × Bool :=
  let (blanks, c) := c.span (· == ' ')
  match c.lineBreak? with
  | none => (blanks, c, false)
  | some (b, c) =>
    if isAnyMarker c.rest then ([], c, true)
    else match plainBreaks limit c with
      | (none, c) => ([], c, true)
      | (some bs, c) => (foldBreaks b bs, c, true)

/-- The words of a plain text and whether a break follows. Outside flow collections a line belongs to
it only if it is indented so far. -/
def plainWords (v : Version) (flow : Bool) (indent : Int) :
    (limit : Nat) → Cursor → (gap : List Char) → (broken : Bool) → List Char × Cursor × Bool
  | 0, c, _, broken => ([], c, broken)
  | limit + 1, c, gap, broken =>
    let n := plainLength v flow c.rest
    if c.startsWith '#' || n = 0 then ([], c, broken)
    else
      let word := c.rest.take n
      let (next, d, broken) := plainGap limit (c.advance n)
      if next.isEmpty || (!flow && d.column < indent) then (gap ++ word, d, broken)
      else
        let (more, d, broken) := plainWords v flow indent limit d next broken
        (gap ++ word ++ more, d, broken)

/-- The plain text at the cursor, in a collection whose entries begin at column `indent`, and whether a
break follows. -/
def plainScalar (v : Version) (flow : Bool) (indent : Int) (limit : Nat) (c : Cursor) :
    Wording × Cursor × Bool :=
  let (word, c, broken) := plainWords v flow (indent + 1) limit c [] false
  (Wording.ofChars word, c, broken)

/-! ### Blocks -/

/-- What becomes of the breaks at the end of a block. -/
inductive Chomping where
  | strip
  | clip
  | keep
  deriving DecidableEq

structure BlockHeader where
  chomping : Chomping
  /-- How far the block is indented beyond what it stands in. -/
  increment : Option Nat

def chomping? : List Char → Option Chomping
  | '+' :: _ => some .keep
  | '-' :: _ => some .strip
  | _ => none

/-- The digit of an increment, not zero. -/
def increment? (cs : List Char) : Except Cause (Option Nat) :=
  match cs.head?.bind (digitIn? 10) with
  | some 0 => .error .malformed
  | found => .ok found

/-- The header after `|` or `>`, in either order, and the cursor at the next line. -/
def blockHeader (c : Cursor) : Except Cause (BlockHeader × Cursor) := do
  let (header, c) ← match chomping? c.rest with
    | some chomping => do
      let c := c.step
      let increment ← increment? c.rest
      pure (BlockHeader.mk chomping increment, if increment.isSome then c.step else c)
    | none => do
      match ← increment? c.rest with
      | none => pure (BlockHeader.mk .clip none, c)
      | some n =>
        let c := c.step
        match chomping? c.rest with
        | some chomping => pure (BlockHeader.mk chomping (some n), c.step)
        | none => pure (BlockHeader.mk .clip (some n), c)
  if atWordEnd c.rest then return (header, ← orMalformed c.restOfLine?)
  else .error .malformed

/-- Empty lines before a block: their breaks, the widest indentation and that of the first of them. -/
def leadingLines : (limit : Nat) → (widest : Nat) → (first : Option Nat) → Cursor →
    List Char × Nat × Option Nat × Cursor
  | 0, widest, first, c => ([], widest, first, c)
  | limit + 1, widest, first, c =>
    if c.startsWith ' ' then leadingLines limit (max widest c.step.column) first c.step
    else match c.lineBreak? with
      | none => ([], widest, first, c)
      | some (b, d) =>
        let (bs, r) := leadingLines limit widest (first.or (some c.column)) d
        (b :: bs, r)

/-- To column `indent`, as far as there are spaces. -/
def toIndent (indent : Nat) (c : Cursor) : Cursor :=
  c.advance ((c.rest.take (indent - c.column)).takeWhile (· == ' ')).length

/-- Empty lines within a block. -/
def emptyLines (indent : Nat) : (limit : Nat) → Cursor → List Char × Cursor
  | 0, c => ([], c)
  | limit + 1, c =>
    let c := toIndent indent c
    match c.lineBreak? with
    | none => ([], c)
    | some (b, c) =>
      let (bs, c) := emptyLines indent limit c
      (b :: bs, c)

/-- The text of a block without the breaks at its end, which come next: that of the last line and those
of empty lines. -/
structure BlockText where
  text : List Char
  lastBreak : List Char
  emptyBreaks : List Char
  cursor : Cursor

/-- The break between two lines, after which those of empty lines follow. In a folded block it is a
space, unless one of the lines is indented further or empty lines follow. -/
def betweenLines (folded : Bool) (indented : Bool) (lastBreak emptyBreaks : List Char) : List Char :=
  if folded && lastBreak == ['\n'] && !indented then
    if emptyBreaks.isEmpty then [' '] else []
  else lastBreak

/-- The lines of a block, after some empty ones. If its lines are not indented, it ends where a document
starts or ends. -/
def blockLines (folded bare : Bool) (indent : Nat) :
    (limit : Nat) → (breaks : List Char) → Cursor → BlockText
  | 0, breaks, c => ⟨breaks, [], [], c⟩
  | limit + 1, breaks, c =>
    let begins := c.rest.head?.any isBlank
    let (line, d) := c.span (!endsLine ·)
    let (last, d) := match d.lineBreak? with
      | some (b, d) => ([b], d)
      | none => ([], d)
    let (empty, d) := emptyLines indent limit d
    if (bare && d.column == 0 && isAnyMarker d.rest) || d.column != indent || d.rest.isEmpty then
      ⟨breaks ++ line, last, empty, d⟩
    else
      let between := betweenLines folded (begins || d.rest.head?.any isBlank) last empty
      let b := blockLines folded bare indent limit empty d
      { b with text := breaks ++ line ++ between ++ b.text }

def chomp (chomping : Chomping) (b : BlockText) : List Char :=
  match chomping with
  | .strip => b.text
  | .clip => b.text ++ b.lastBreak
  | .keep => b.text ++ b.lastBreak ++ b.emptyBreaks

/-- The column of a block's lines, and the empty lines before them. It is given by the header, or that
of the first line, before which no empty one may be followed by wider ones. -/
def blockStart (header : BlockHeader) (indent : Int) (limit : Nat) (c : Cursor) :
    Except Cause (Nat × List Char × Cursor) :=
  let least := (indent + 1).toNat
  match header.increment with
  | some n =>
    let column := max least 1 + n - 1
    let (breaks, c) := emptyLines column limit c
    .ok (column, breaks, c)
  | none =>
    let (breaks, widest, first, c) := leadingLines limit 0 none c
    if first.any fun n => 0 < n && n < widest then .error .malformed
    else .ok (max least widest, breaks, c)

/-- The block at the cursor, literal after `|` and folded after `>`, in a collection whose entries begin
at column `indent`. -/
def blockScalar (indent : Int) (limit : Nat) (c : Cursor) : Except Cause (Wording × Cursor) := do
  let folded := c.startsWith '>'
  let (header, c) ← blockHeader c.step
  let (column, breaks, c) ← blockStart header indent limit c
  let bare := indent < 0 && header.increment.isNone
  let b :=
    if c.column == column && !c.rest.isEmpty then
      blockLines folded bare column limit breaks c
    else ⟨[], [], breaks, c⟩
  return (Wording.ofChars (chomp header.chomping b), b.cursor)

end Relief.Yaml
