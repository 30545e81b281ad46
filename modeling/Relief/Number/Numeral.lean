import Relief.Number.Decimal
import Relief.Text.Digit
import Relief.Text.Ranges

/-!
Texts read as numbers. Digits of every script count, and an underscore may stand between two digits.
-/
namespace Relief.Number

open Relief.Text

/-- A character as a numeral sees it: another script's digit is the ASCII digit, another blank is
the space, and any other character beyond ASCII stands for nothing. -/
def plainChar (c : Char) : Char :=
  if c.toNat < 127 then c
  else if isBlank c then ' '
  else match digit? c with
    | some d => Char.ofNat (48 + d)
    | none => '?'

/-- Around a numeral only these blanks are passed over. -/
def isPad (c : Char) : Bool :=
  c == ' ' || ('\t' ≤ c && c ≤ '\r')

/-- A numeral without the blanks around it. -/
def plain (s : String) : List Char :=
  let cs := s.toList.map plainChar
  ((cs.dropWhile isPad).reverse.dropWhile isPad).reverse

/-- The value of a digit in a base up to sixteen. -/
def digitIn? (base : Nat) (c : Char) : Option Nat :=
  let n := c.toNat
  let d :=
    if 48 ≤ n ∧ n ≤ 57 then n - 48
    else if 97 ≤ n ∧ n ≤ 102 then n - 87
    else if 65 ≤ n ∧ n ≤ 70 then n - 55
    else base
  if d < base then some d else none

/-- Digits in a row, single underscores between them, and what follows. -/
def digitRun (base : Nat) : List Char → List Nat × List Char
  | [] => ([], [])
  | c :: '_' :: e :: rest =>
    match digitIn? base c, digitIn? base e with
    | some d, some _ =>
      let (ds, rest) := digitRun base (e :: rest)
      (d :: ds, rest)
    | some d, none => ([d], '_' :: e :: rest)
    | none, _ => ([], c :: '_' :: e :: rest)
  | c :: cs =>
    match digitIn? base c with
    | some d =>
      let (ds, rest) := digitRun base cs
      (d :: ds, rest)
    | none => ([], c :: cs)

def digitsIn (base : Nat) (ds : List Nat) : Nat :=
  ds.foldl (fun v d => base * v + d) 0

/-- A sign and what follows. -/
def signed : List Char → Bool × List Char
  | '-' :: cs => (true, cs)
  | '+' :: cs => (false, cs)
  | cs => (false, cs)

def withSign (negative : Bool) (n : Nat) : Int :=
  if negative then -(n : Int) else n

/-- A whole number may have at most this many digits. -/
def maxDigits : Nat := 4300

/-- A sign and digits in a base. -/
def signedDigits? (base : Nat) (s : String) : Option (Bool × List Nat) :=
  let (negative, cs) := signed (plain s)
  match digitRun base cs with
  | (d :: ds, []) => some (negative, d :: ds)
  | _ => none

/-- A whole number. -/
def readInt? (s : String) : Option Int :=
  match signedDigits? 10 s with
  | some (negative, ds) =>
    if ds.length ≤ maxDigits then some (withSign negative (digitsIn 10 ds)) else none
  | none => none

/-- The letter that stands for a base after a zero. -/
def baseLetter? (base : Nat) : Option Char :=
  match base with
  | 2 => some 'b'
  | 8 => some 'o'
  | 16 => some 'x'
  | _ => none

/-- Without the zero and the letter that tell the base. -/
def dropBase (base : Nat) : List Char → List Char
  | '0' :: c :: cs => if some c.toLower == baseLetter? base then cs else '0' :: c :: cs
  | cs => cs

/-- A whole number in a base whose digits are bits, of any length. -/
def readBits? (base : Nat) (s : String) : Option Int :=
  let (negative, cs) := signed (plain s)
  match digitRun base (dropBase base cs) with
  | (d :: ds, []) => some (withSign negative (digitsIn base (d :: ds)))
  | _ => none

/-- The exponent of a decimal, zero if there is none. -/
def exponentPart? : List Char → Option Int
  | [] => some 0
  | c :: cs =>
    if c == 'e' || c == 'E' then
      let (negative, cs) := signed cs
      match digitRun 10 cs with
      | ([], _) => none
      | (ds, []) => some (withSign negative (digitsIn 10 ds))
      | _ => none
    else none

/-- An unsigned decimal: digits with a point before, among or after them, and an exponent. -/
def decimalPart? (cs : List Char) : Option Decimal :=
  let (whole, rest) := digitRun 10 cs
  let (fraction, rest) := match rest with
    | '.' :: r => digitRun 10 r
    | _ => ([], rest)
  if whole.isEmpty && fraction.isEmpty then none
  else (exponentPart? rest).map fun e =>
    ⟨digitsIn 10 (whole ++ fraction), e - fraction.length⟩

def lowerAscii (cs : List Char) : String :=
  String.ofList (cs.map Char.toLower)

/-- Infinity and NaN by name, in any letter case. -/
def namedFloat? (negative : Bool) (cs : List Char) : Option Float :=
  let name := lowerAscii cs
  if name = "inf" ∨ name = "infinity" then
    some (Float.ofBits (if negative then 0xFFF0000000000000 else 0x7FF0000000000000))
  else if name = "nan" then some (Float.ofBits 0x7FF8000000000000)
  else none

/-- A double, named or as the nearest to a decimal. -/
def readFloat? (s : String) : Option Float :=
  let (negative, cs) := signed (plain s)
  match namedFloat? negative cs with
  | some v => some v
  | none => (decimalPart? cs).map (·.toFloat negative)

end Relief.Number
