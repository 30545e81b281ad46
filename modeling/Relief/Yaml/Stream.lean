import Relief.Yaml.Name
import Relief.Yaml.Scalar

/-!
The tokens of a text, read one after the other. That a scalar or a collection is a key is seen only from
the colon behind it, so what may be a key is not given away before that is known.
-/
namespace Relief.Yaml

/-- What may turn out to be a key. -/
structure PendingKey where
  /-- How many tokens stand before it. -/
  index : Nat
  /-- Whether it must be one, since an entry of a block mapping has to begin there. -/
  required : Bool
  mark : Mark
  deriving Repr

structure Stream where
  cursor : Cursor
  /-- More than the text has characters. -/
  limit : Nat
  /-- The tokens that are known and not taken yet. -/
  queue : List Token
  taken : Nat
  /-- Whether the text's end is known. -/
  ended : Bool
  /-- The columns of the block collections at hand, from the innermost on. -/
  indents : List Nat
  /-- Whether a key may begin here. -/
  fresh : Bool
  /-- The brackets that are open, from the innermost on. -/
  brackets : List Bracket
  /-- What may be a key, at most one thing for each number of open brackets. -/
  pending : List (Nat × PendingKey)
  version : Version
  deriving Repr

namespace Stream

def ofText (cs : List Char) : Stream :=
  { cursor := Cursor.ofText cs
    limit := cs.length + 2
    queue := []
    taken := 0
    ended := false
    indents := []
    fresh := true
    brackets := []
    pending := []
    version := .v12 }

def inFlow (s : Stream) : Bool := !s.brackets.isEmpty

def column (s : Stream) : Nat := s.cursor.column

/-- The column of the innermost block collection. -/
def indent (s : Stream) : Int :=
  match s.indents with
  | [] => -1
  | n :: _ => n

def push (s : Stream) (t : Token) : Stream :=
  { s with queue := s.queue ++ [t] }

def pushAll (s : Stream) (ts : List Token) : Stream :=
  { s with queue := s.queue ++ ts }

/-- Puts tokens before the one that has so many before it. -/
def putAt (s : Stream) (index : Nat) (ts : List Token) : Stream :=
  let n := index - s.taken
  { s with queue := s.queue.take n ++ ts ++ s.queue.drop n }

/-! ### Keys -/

/-- How long a key may be. -/
def maxKeyLength : Nat := 1024

/-- Whether what may be a key is too far back to be one. -/
def isStale (s : Stream) (k : PendingKey) : Bool :=
  k.mark.line != s.cursor.mark.line || k.mark.offset + maxKeyLength < s.cursor.mark.offset

/-- Gives up what is too far back to be a key. -/
def dropStale (s : Stream) : Except Cause Stream :=
  let (stale, live) := s.pending.partition fun e => s.isStale e.2
  if stale.any (·.2.required) then .error .malformed else .ok { s with pending := live }

def pendingKey? (s : Stream) : Option PendingKey :=
  s.pending.lookup s.brackets.length

def forgetKey (s : Stream) : Stream :=
  let level := s.brackets.length
  { s with pending := s.pending.filter fun e => e.1 != level }

/-- Gives up what may be a key among the same brackets. -/
def dropKey (s : Stream) : Except Cause Stream :=
  if s.pendingKey?.any (·.required) then .error .malformed else .ok s.forgetKey

/-- Notes that what comes next may be a key. -/
def noteKey (s : Stream) : Except Cause Stream :=
  if s.fresh then do
    let s ← s.dropKey
    let key : PendingKey :=
      { index := s.taken + s.queue.length
        required := !s.inFlow && s.indent == s.column
        mark := s.cursor.mark }
    return { s with pending := (s.brackets.length, key) :: s.pending }
  else .ok s

/-- Whether the token that would be given away next may be a key. -/
def isUncertain (s : Stream) : Bool :=
  (s.pending.map fun e => e.2.index).min? == some s.taken

/-! ### Block collections -/

/-- Ends the block collections that begin behind a column. -/
def unwind (s : Stream) (column : Int) : Stream :=
  if s.inFlow then s
  else
    let left := s.indents.dropWhile fun n : Nat => column < n
    { s with indents := left }.pushAll
      (List.replicate (s.indents.length - left.length) .blockEnd)

/-- Whether a block collection begins at a column: one that is indented more than those around it. -/
def begins (s : Stream) (column : Nat) : Bool :=
  s.indent < column

def beginAt (s : Stream) (column : Nat) : Stream :=
  if s.begins column then { s with indents := column :: s.indents } else s

/-- Begins a block collection here, if one begins. Its entries stand at the starts of lines. -/
def beginBlock (s : Stream) (t : Token) : Except Cause Stream :=
  if s.inFlow then .ok s
  else if !s.fresh then .error .malformed
  else .ok (if s.begins s.column then (s.beginAt s.column).push t else s)

/-! ### Tokens -/

/-- The end of the text. -/
def finish (s : Stream) : Except Cause Stream := do
  let s ← (s.unwind (-1)).dropKey
  return { s.push .textEnd with fresh := false, pending := [], ended := true }

def readDirective (s : Stream) : Except Cause Stream := do
  let s ← (s.unwind (-1)).dropKey
  let (d, cursor) ← directiveAt s.version s.limit s.cursor
  let s := { s with cursor := cursor, fresh := false }.push (.directive d)
  return match d with
    | .version major minor => { s with version := (Version.ofNumbers? major minor).getD .v12 }
    | _ => s

/-- The mark of a document's start or end. -/
def readMarker (s : Stream) (t : Token) : Except Cause Stream := do
  let s ← (s.unwind (-1)).dropKey
  return { s with cursor := s.cursor.advance startMarker.length, fresh := false }.push t

def openBracket (s : Stream) (b : Bracket) : Except Cause Stream := do
  let s ← s.noteKey
  return { s with brackets := b :: s.brackets, cursor := s.cursor.step, fresh := true }.push
    (.flowStart b)

def closeBracket (s : Stream) (b : Bracket) : Except Cause Stream := do
  let s ← s.dropKey
  return { s with brackets := s.brackets.tail, cursor := s.cursor.step, fresh := false }.push
    (.flowEnd b)

def readComma (s : Stream) : Except Cause Stream := do
  let s ← s.dropKey
  return { s with cursor := s.cursor.step, fresh := true }.push .comma

def readEntry (s : Stream) : Except Cause Stream := do
  let s ← (← s.beginBlock .blockSequence).dropKey
  return { s with cursor := s.cursor.step, fresh := true }.push .entry

def readKey (s : Stream) : Except Cause Stream := do
  let s ← (← s.beginBlock .blockMapping).dropKey
  return { s with cursor := s.cursor.step, fresh := !s.inFlow }.push .key

/-- The colon after a key. A key before it is seen to be one, and may begin a block mapping. -/
def readValue (s : Stream) : Except Cause Stream := do
  let s ← match s.pendingKey? with
    | some k =>
      let s := s.forgetKey
      let s :=
        if !s.inFlow && s.begins k.mark.column then
          (s.beginAt k.mark.column).putAt k.index [.blockMapping, .key]
        else s.putAt k.index [.key]
      pure { s with fresh := false }
    | none => do
      let s ← (← s.beginBlock .blockMapping).dropKey
      pure { s with fresh := !s.inFlow }
  return { s with cursor := s.cursor.step }.push .value

/-- A token that may be a key or begin one, by its reader. -/
def readWord (s : Stream) (read : Cursor → Except Cause (Token × Cursor)) : Except Cause Stream := do
  let s ← s.noteKey
  let (t, cursor) ← read s.cursor
  return { s with cursor := cursor, fresh := false }.push t

def readName (s : Stream) (token : String → Token) : Except Cause Stream :=
  s.readWord fun c => orMalformed ((anchorName? c).map fun (name, c) => (token name, c))

def readTag (s : Stream) : Except Cause Stream :=
  s.readWord fun c => orMalformed (tagAt? s.version s.limit c)

def readQuoted (s : Stream) (quote : Char) : Except Cause Stream :=
  s.readWord fun c => (quotedScalar quote s.limit c).map fun (text, c) => (.scalar false text, c)

def readPlain (s : Stream) : Except Cause Stream := do
  let s ← s.noteKey
  let (text, cursor, broken) := plainScalar s.version s.inFlow s.indent s.limit s.cursor
  return { s with cursor := cursor, fresh := broken }.push (.scalar true text)

def readBlock (s : Stream) : Except Cause Stream := do
  let s ← s.dropKey
  let (text, cursor) ← blockScalar s.indent s.limit s.cursor
  return { s with cursor := cursor, fresh := true }.push (.scalar false text)

/-- Whether a colon that nothing parts from what follows stands before a value: in braces, unless the
token before it is known and such a colon too. -/
def isTightValue (s : Stream) : Bool :=
  match s.brackets with
  | [] => false
  | b :: _ => s.version == .v11 || (b == .brace && s.queue.getLast? != some .value)

/-- Reads the token that begins with a character before some others. -/
def readToken (s : Stream) (c : Char) (cs : List Char) : Except Cause Stream :=
  if s.column == 0 && c == '%' then s.readDirective
  else if s.column == 0 && isMarker startMarker (c :: cs) then s.readMarker .documentStart
  else if s.column == 0 && isMarker endMarker (c :: cs) then s.readMarker .documentEnd
  else match c with
    | '[' => s.openBracket .square
    | '\x7b' => s.openBracket .brace
    | ']' => s.closeBracket .square
    | '\x7d' => s.closeBracket .brace
    | ',' => s.readComma
    | '*' => s.readName .reference
    | '&' => s.readName .anchor
    | '!' => s.readTag
    | '\'' => s.readQuoted '\''
    | '"' => s.readQuoted '"'
    | _ =>
      if c == '-' && atGap cs then s.readEntry
      else if c == '?' && (s.inFlow || atGap cs) then s.readKey
      else if c == ':' && (atGap cs || s.isTightValue) then s.readValue
      else if (c == '|' || c == '>') && !s.inFlow then s.readBlock
      else if startsPlain s.version s.inFlow (c :: cs) then s.readPlain
      else .error .malformed

/-- Reads the next token, and those that it shows to be missing before it. -/
def fetch (s : Stream) : Except Cause Stream := do
  let (cursor, fresh) := skipGap s.inFlow false s.cursor.rest s.cursor.mark s.fresh
  let s ← { s with cursor := cursor, fresh := fresh }.dropStale
  let s := s.unwind s.column
  match s.cursor.rest with
  | [] => s.finish
  | c :: cs => s.readToken c cs

/-- Reads until it is known what the next token is. Every step passes a character or ends the text. -/
def fill : (limit : Nat) → Stream → Except Cause Stream
  | 0, s => .ok s
  | limit + 1, s =>
    if s.ended then .ok s
    else if s.queue.isEmpty then s.fetch.bind (fill limit)
    else do
      let s ← s.dropStale
      if s.isUncertain then s.fetch.bind (fill limit) else return s

/-- The next token, which stays where it is. -/
def head (s : Stream) : Except Cause (Token × Stream) := do
  let s ← fill s.limit s
  return (s.queue.head?.getD .textEnd, s)

/-- Without the next token, which is known. -/
def tail (s : Stream) : Stream :=
  if s.queue.isEmpty then s else { s with queue := s.queue.tail, taken := s.taken + 1 }

end Stream

end Relief.Yaml
