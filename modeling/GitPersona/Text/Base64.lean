/-
Octets written in base 64. Characters outside the alphabet are passed
over; padding ends the text once it completes a group, and only padding
may end it within one.
-/

namespace GitPersona.Text

/-- The value of a character of the alphabet. -/
def base64Value? (c : Char) : Option Nat :=
  if c.isUpper then some (c.toNat - 0x41)
  else if c.isLower then some (c.toNat - 0x61 + 26)
  else if c.isDigit then some (c.toNat - 0x30 + 52)
  else if c = '+' then some 62
  else if c = '/' then some 63
  else none

/-- The values of the characters up to the padding that completes a group.
`filled` says how many values the present group has, `pads` how many
paddings came last. -/
def base64Values? : Nat → Nat → List Char → Option (List Nat)
  | filled, _, [] => if filled = 0 then some [] else none
  | filled, pads, c :: cs =>
    if c = '=' then
      if filled < 2 then base64Values? filled pads cs
      else if 4 ≤ filled + pads + 1 then some []
      else base64Values? filled (pads + 1) cs
    else
      match base64Value? c with
      | none => base64Values? filled pads cs
      | some v => (base64Values? ((filled + 1) % 4) 0 cs).map (v :: ·)

/-- The octets that values of six bits make; what is left over of a last group
counts for nothing. -/
def octetsOfSixes : List Nat → List UInt8
  | a :: b :: c :: d :: r =>
    UInt8.ofNat (a * 4 + b / 16) :: UInt8.ofNat (b % 16 * 16 + c / 4)
      :: UInt8.ofNat (c % 4 * 64 + d) :: octetsOfSixes r
  | [a, b, c] => [UInt8.ofNat (a * 4 + b / 16),
      UInt8.ofNat (b % 16 * 16 + c / 4)]
  | [a, b] => [UInt8.ofNat (a * 4 + b / 16)]
  | _ => []

/-- The octets that a text spells. -/
def ofBase64? (cs : List Char) : Option (List UInt8) :=
  (base64Values? 0 0 cs).map octetsOfSixes

end GitPersona.Text
