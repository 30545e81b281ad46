import Relief.Number.Numeral
import Relief.Yaml.Cause
import Relief.Yaml.Cursor
import Relief.Yaml.Token

/-!
Names in a text: anchors, tags and directives.
-/
namespace Relief.Yaml

open Relief.Number

def isLetterOrDigit (c : Char) : Bool :=
  ('0' ≤ c && c ≤ '9') || ('a' ≤ c && c ≤ 'z') || ('A' ≤ c && c ≤ 'Z')

/-! ### Anchors -/

/-- A name may hold whatever is visible, except what flow collections need. -/
def isAnchorChar (c : Char) : Bool :=
  let n := c.toNat
  !(",[]\x7b\x7d".toList.contains c) && c != byteOrderMark
    && ((0x21 ≤ n && n ≤ 0x7E) || 0xA0 ≤ n)

/-- Whether a name may end here. -/
def endsAnchor (cs : List Char) : Bool :=
  cs.head?.all fun c => isBlank c || isBreak c || "?:,[]\x7b\x7d%@`".toList.contains c

/-- The name after `&` or `*`. -/
def anchorName? (c : Cursor) : Option (String × Cursor) :=
  let (name, c) := c.step.span isAnchorChar
  if name.isEmpty || !endsAnchor c.rest then none else some (String.ofList name, c)

/-! ### Tags -/

def primaryHandle : String := "!"
def secondaryHandle : String := "!!"

def isHandleChar (c : Char) : Bool :=
  isLetterOrDigit c || c == '-' || c == '_'

/-- A handle: one or two exclamation marks, with letters between the two. -/
def tagHandle? (c : Cursor) : Option (String × Cursor) :=
  if !c.startsWith '!' then none
  else if c.step.startsWith ' ' then some (primaryHandle, c.step)
  else
    let (name, d) := c.step.span isHandleChar
    if d.startsWith '!' then some (String.ofList ('!' :: name ++ ['!']), d.step) else none

def isUriChar (v : Version) (c : Char) : Bool :=
  isLetterOrDigit c || "-;/?:@&=+$,_.!~*'()[]".toList.contains c || (c == '#' && v == .v12)

/-- The octet of an escape of two digits after a percent sign. -/
def escapedOctet? (cs : List Char) : Option UInt8 :=
  match cs with
  | '%' :: a :: b :: _ => do
    let high ← digitIn? 16 a
    let low ← digitIn? 16 b
    return UInt8.ofNat (16 * high + low)
  | _ => none

/-- The escapes in a row, as octets. -/
def octets? : (limit : Nat) → Cursor → Option (List UInt8 × Cursor)
  | 0, c => some ([], c)
  | limit + 1, c =>
    if c.startsWith '%' then do
      let octet ← escapedOctet? c.rest
      let (octets, c) ← octets? limit (c.advance 3)
      return (octet :: octets, c)
    else some ([], c)

/-- The characters of an address with its escapes, each run of which is a text. -/
def uriChars? (v : Version) : (limit : Nat) → Cursor → Option (List Char × Cursor)
  | 0, c => some ([], c)
  | limit + 1, c =>
    let (word, d) := c.span (isUriChar v)
    if d.startsWith '%' then do
      let (octets, e) ← octets? limit d
      if (String.fromUTF8? ⟨octets.toArray⟩).isNone then none
      let (more, e) ← uriChars? v limit e
      return (word ++ d.rest.take (3 * octets.length) ++ more, e)
    else some (word, d)

def uri? (v : Version) (limit : Nat) (c : Cursor) : Option (String × Cursor) := do
  let (cs, c) ← uriChars? v limit c
  if cs.isEmpty then none else return (String.ofList cs, c)

/-- What an address stands for, with every escape as the character of its number. -/
def unescapeUri : List Char → List Char
  | '%' :: a :: b :: cs =>
    match escapedOctet? ['%', a, b] with
    | some octet => Char.ofNat octet.toNat :: unescapeUri cs
    | none => '%' :: unescapeUri (a :: b :: cs)
  | c :: cs => c :: unescapeUri cs
  | [] => []

/-- Whether an exclamation mark follows before a space or a break. -/
def hasHandle (cs : List Char) : Bool :=
  (cs.takeWhile fun c => c != ' ' && !isBreak c).contains '!'

/-- A tag after its handle, which is one or two exclamation marks: an address in angle brackets, nothing
more, or a name, to which the handle may belong. -/
def tagBody? (v : Version) (limit : Nat) (handle : String) (c : Cursor) : Option (Token × Cursor) :=
  if c.step.startsWith '<' then do
    let (uri, c) ← uri? v limit (c.advance 2)
    if c.startsWith '>' then return (.tag none uri, c.step) else none
  else if atGap c.step.rest then some (.tag none handle, c.step)
  else do
    let (handle, c) ← if hasHandle c.step.rest then tagHandle? c else some (handle, c.step)
    let (uri, c) ← uri? v limit c
    return (.tag (some handle) uri, c)

/-- The tag at the cursor. -/
def tagAt? (v : Version) (limit : Nat) (c : Cursor) : Option (Token × Cursor) := do
  let (t, c) ←
    if c.step.startsWith '!' then tagBody? v limit secondaryHandle c.step
    else tagBody? v limit primaryHandle c
  if atWordEnd c.rest then return (t, c) else none

/-! ### Directives -/

def isDirectiveChar (c : Char) : Bool :=
  isLetterOrDigit c || c == '-' || c == '_' || c == ':' || c == '.'

def versionNumber (c : Cursor) : Except Cause (Nat × Cursor) :=
  let (ds, c) := c.span Char.isDigit
  if ds.isEmpty then .error .malformed
  else if maxDigits < ds.length then .error .number
  else .ok (digitsIn 10 (ds.filterMap (digitIn? 10)), c)

def versionDirective (c : Cursor) : Except Cause (Directive × Cursor) := do
  let (major, c) ← versionNumber c.skipSpaces
  if !c.startsWith '.' then .error .malformed
  let (minor, c) ← versionNumber c.step
  if atWordEnd c.rest then return (.version major minor, c) else .error .malformed

def handleDirective? (v : Version) (limit : Nat) (c : Cursor) : Option (Directive × Cursor) := do
  let (name, c) ← tagHandle? c.skipSpaces
  if !c.startsWith ' ' then none
  let (start, c) ← uri? v limit c.skipSpaces
  if atWordEnd c.rest then return (.handle name start, c) else none

/-- The directive at the cursor, which ends its line. -/
def directiveAt (v : Version) (limit : Nat) (c : Cursor) : Except Cause (Directive × Cursor) := do
  let (name, c) := c.step.span isDirectiveChar
  if name.isEmpty || !atWordEnd c.rest then .error .malformed
  let (d, c) ←
    match String.ofList name with
    | "YAML" => versionDirective c
    | "TAG" => orMalformed (handleDirective? v limit c)
    | _ => .ok (.other, c.skip (!endsLine ·))
  return (d, ← orMalformed c.restOfLine?)

end Relief.Yaml
