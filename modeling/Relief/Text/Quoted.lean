import Relief.Text.Printable

/-!
Text in quotes, as it appears inside messages.
-/
namespace Relief.Text

/-- A number in lower-case hexadecimal digits, at least `width` of them. -/
def hex (width n : Nat) : List Char :=
  let ds := Nat.toDigits 16 n
  List.replicate (width - ds.length) '0' ++ ds

/-- An invisible character by its number. -/
def escapeCode (c : Char) : List Char :=
  let n := c.toNat
  if n < 0x100 then '\\' :: 'x' :: hex 2 n
  else if n < 0x10000 then '\\' :: 'u' :: hex 4 n
  else '\\' :: 'U' :: hex 8 n

def escape (quote c : Char) : List Char :=
  if c == quote || c == '\\' then ['\\', c]
  else if c == '\n' then ['\\', 'n']
  else if c == '\r' then ['\\', 'r']
  else if c == '\t' then ['\\', 't']
  else if isPrintable c then [c]
  else escapeCode c

/-- Single quotes, unless the text holds those and no double ones. -/
def quoteFor (cs : List Char) : Char :=
  if cs.contains '\'' && !cs.contains '"' then '"' else '\''

def quoted (s : String) : String :=
  let q := quoteFor s.toList
  String.ofList (q :: s.toList.flatMap (escape q) ++ [q])

/-- The character of a code point, if it is one. -/
def char? (code : Nat) : Option Char :=
  if h : code.isValidChar then some (Char.ofNatAux code h) else none

/-- A code point. One that is no character is written by its number. -/
def escapeCodePoint (quote : Char) (code : Nat) : List Char :=
  match char? code with
  | some c => escape quote c
  | none => '\\' :: 'u' :: hex 4 code

/-- A text by code points. -/
def quotedCodes (codes : List Nat) : String :=
  let q := quoteFor (codes.filterMap char?)
  String.ofList (q :: codes.flatMap (escapeCodePoint q) ++ [q])

/-- An octet, as a character if it is one of ASCII. -/
def escapeOctet (quote : Char) (octet : UInt8) : List Char :=
  if octet < 127 then escape quote (Char.ofNat octet.toNat)
  else '\\' :: 'x' :: hex 2 octet.toNat

/-- Octets, after a letter that says so. -/
def quotedOctets (octets : List UInt8) : String :=
  let q := quoteFor (octets.map fun o => Char.ofNat o.toNat)
  String.ofList ('b' :: q :: octets.flatMap (escapeOctet q) ++ [q])

def quotedChar (c : Char) : String :=
  quoted (String.singleton c)

/-- A list of quoted texts. -/
def quotedList (texts : List String) : String :=
  "[" ++ String.intercalate ", " (texts.map quoted) ++ "]"

end Relief.Text
