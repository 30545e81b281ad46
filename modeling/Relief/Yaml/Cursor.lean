/-!
Where a reader of YAML stands in a text, and the blanks, breaks and comments that it passes over.
-/
namespace Relief.Yaml

/-- What a line may end with. -/
def endsLine (c : Char) : Bool :=
  c == '\n' || c == '\r' || c == '\x85'

/-- What a text is broken at: the ends of lines, and two separators that begin no line. -/
def isBreak (c : Char) : Bool :=
  endsLine c || c == '\u2028' || c == '\u2029'

def isBlank (c : Char) : Bool :=
  c == ' ' || c == '\t'

def byteOrderMark : Char := '\ufeff'

/-- The characters that a text may hold. -/
def isAllowed (c : Char) : Bool :=
  let n := c.toNat
  n == 0x9 || n == 0xA || n == 0xD || (0x20 ≤ n && n ≤ 0x7E) || n == 0x85
    || (0xA0 ≤ n && n ≤ 0xFFFD) || 0x10000 ≤ n

/-- Whether nothing but a blank, the end of a line or of the text follows. -/
def atGap (cs : List Char) : Bool :=
  cs.head?.all fun c => isBlank c || endsLine c

/-- Whether a space, a break or the end of the text follows. -/
def atWordEnd (cs : List Char) : Bool :=
  cs.head?.all fun c => c == ' ' || isBreak c

def atLineEnd (cs : List Char) : Bool :=
  cs.head?.all endsLine

structure Mark where
  line : Nat
  column : Nat
  /-- How many characters stand before it. -/
  offset : Nat
  deriving DecidableEq, Repr

namespace Mark

def start : Mark := ⟨0, 0, 0⟩

/-- The mark after a character, before others. -/
def after (m : Mark) (c : Char) (next : List Char) : Mark :=
  if c == '\n' || (c == '\r' && next.head? != some '\n') then ⟨m.line + 1, 0, m.offset + 1⟩
  else ⟨m.line, if c == byteOrderMark then m.column else m.column + 1, m.offset + 1⟩

end Mark

structure Cursor where
  rest : List Char
  mark : Mark
  deriving Repr

namespace Cursor

/-- At the start of a text, past a mark of its byte order. -/
def ofText (cs : List Char) : Cursor :=
  match cs with
  | c :: rest =>
    if c == byteOrderMark then ⟨rest, Mark.start.after c rest⟩ else ⟨c :: rest, Mark.start⟩
  | [] => ⟨[], Mark.start⟩

def column (c : Cursor) : Nat := c.mark.column

def step (c : Cursor) : Cursor :=
  match c.rest with
  | [] => c
  | ch :: cs => ⟨cs, c.mark.after ch cs⟩

/-- After `n` characters. -/
def advance (c : Cursor) : Nat → Cursor
  | 0 => c
  | n + 1 => c.step.advance n

def startsWith (c : Cursor) (ch : Char) : Bool :=
  c.rest.head? == some ch

/-- What stands at the cursor as far as it fulfils a condition, and the cursor behind it. -/
def span (c : Cursor) (p : Char → Bool) : List Char × Cursor :=
  let word := c.rest.takeWhile p
  (word, c.advance word.length)

def skip (c : Cursor) (p : Char → Bool) : Cursor :=
  (c.span p).2

def skipSpaces (c : Cursor) : Cursor :=
  c.skip (· == ' ')

/-- Past a comment, if there is one. -/
def skipComment (c : Cursor) : Cursor :=
  if c.startsWith '#' then c.skip (!endsLine ·) else c

/-- The break at hand, where all ends of lines are the same, and the cursor behind it. -/
def lineBreak? (c : Cursor) : Option (Char × Cursor) :=
  match c.rest with
  | [] => none
  | '\r' :: '\n' :: _ => some ('\n', c.advance 2)
  | ch :: _ =>
    if endsLine ch then some ('\n', c.step) else if isBreak ch then some (ch, c.step) else none

/-- Past the break at hand, if there is one. -/
def skipBreak (c : Cursor) : Cursor :=
  (c.lineBreak?.map (·.2)).getD c

/-- Past what may stand between a line's last word and its end: spaces and a comment. -/
def restOfLine? (c : Cursor) : Option Cursor :=
  let c := c.skipSpaces.skipComment
  if atLineEnd c.rest then some c.skipBreak else none

end Cursor

def startMarker : String := "---"
def endMarker : String := "..."

/-- Whether a text starts with the mark of a document's start or end. -/
def isMarker (marker : String) (cs : List Char) : Bool :=
  marker.toList.isPrefixOf cs && atGap (cs.drop marker.length)

def isAnyMarker (cs : List Char) : Bool :=
  isMarker startMarker cs || isMarker endMarker cs

/-- Passes over spaces, comments and breaks, in flow collections over tabs too, and tells whether a
block collection may begin behind them. In blocks, a break allows it. -/
def skipGap (flow : Bool) : (comment : Bool) → List Char → Mark → (fresh : Bool) → Cursor × Bool
  | _, [], m, fresh => (⟨[], m⟩, fresh)
  | comment, c :: cs, m, fresh =>
    if comment && !endsLine c then skipGap flow true cs (m.after c cs) fresh
    else if isBreak c then skipGap flow false cs (m.after c cs) (fresh || !flow)
    else if c == '#' then skipGap flow true cs (m.after c cs) fresh
    else if c == ' ' || (flow && c == '\t') then skipGap flow false cs (m.after c cs) fresh
    else (⟨c :: cs, m⟩, fresh)

end Relief.Yaml
