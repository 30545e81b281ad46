/-!
Octets in base sixty-four: four characters stand for three octets.
-/
namespace Relief.Text.Base64

/-- The value of a character, from zero to sixty-three. -/
def digit? (c : Char) : Option Nat :=
  let n := c.toNat
  if 65 ≤ n ∧ n ≤ 90 then some (n - 65)
  else if 97 ≤ n ∧ n ≤ 122 then some (n - 71)
  else if 48 ≤ n ∧ n ≤ 57 then some (n + 4)
  else if c = '+' then some 62
  else if c = '/' then some 63
  else none

def padding : Char := '='

/-- The octets of up to four digits. One digit alone is less than an octet. -/
def octets : List Nat → List UInt8
  | [a, b] => [UInt8.ofNat (4 * a + b / 16)]
  | [a, b, c] => [UInt8.ofNat (4 * a + b / 16), UInt8.ofNat (16 * (b % 16) + c / 4)]
  | [a, b, c, d] =>
    [UInt8.ofNat (4 * a + b / 16), UInt8.ofNat (16 * (b % 16) + c / 4),
      UInt8.ofNat (64 * (c % 4) + d)]
  | _ => []

/-- The octets of a text after some digits of a group and padding. Other characters do not count. The
text ends where a group is full with its padding, and may not end within a group. -/
def decodeFrom : (group : List Nat) → (pads : Nat) → List Char → Option (List UInt8)
  | group, _, [] => if group.isEmpty then some [] else none
  | group, pads, c :: cs =>
    if c = padding then
      if 2 ≤ group.length then
        if 4 ≤ group.length + pads + 1 then some (octets group)
        else decodeFrom group (pads + 1) cs
      else decodeFrom group pads cs
    else match digit? c with
      | none => decodeFrom group pads cs
      | some d =>
        if group.length = 3 then (decodeFrom [] 0 cs).map (octets (group ++ [d]) ++ ·)
        else decodeFrom (group ++ [d]) 0 cs

def decode? (cs : List Char) : Option (List UInt8) :=
  decodeFrom [] 0 cs

end Relief.Text.Base64
