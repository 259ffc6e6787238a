/-
Doubles with a fixed number of decimal places. The exact value is
rounded once, to the nearest multiple of the last place, ties to even.
-/
import GitPersona.Decimal.Binary

namespace GitPersona.Decimal

/-- A natural number of last places, written with a point. -/
def placeChars (places n : Nat) : List Char :=
  let cs := padZeros (places + 1) (digits n)
  if places = 0 then cs
  else cs.take (cs.length - places) ++ '.' :: cs.drop (cs.length - places)

/-- A double with so many decimal places. The sign of a negative
zero is kept. -/
def fixed (places : Nat) (x : Float) : String :=
  match Binary.ofFloat x with
  | .undefined => "nan"
  | .infinite negative => if negative then "-inf" else "inf"
  | .finite negative mantissa exponent =>
    let (num, den) := fraction mantissa exponent
    let cs := placeChars places (roundDiv (num * Nat.pow 10 places) den)
    String.ofList (if negative then '-' :: cs else cs)

end GitPersona.Decimal
