/-
Reading doubles from decimal digits: `digits * 10 ^ exponent`, rounded
once to the nearest double.
-/
import GitPersona.Decimal.Binary

namespace GitPersona.Decimal

/-- The value of a list of decimal digits. -/
def digitsValue (cs : List Char) : Nat :=
  cs.foldl (fun n c => 10 * n + (c.toNat - 0x30)) 0

/-- A hexadecimal digit of either case. -/
def isHexDigit (c : Char) : Bool :=
  c.isDigit || ('a' ≤ c && c ≤ 'f') || ('A' ≤ c && c ≤ 'F')

/-- The value of a hexadecimal digit. -/
def hexValue (c : Char) : Nat :=
  if c.isDigit then c.toNat - 0x30 else c.toLower.toNat - 0x57

/-- The value of a list of digits in a base up to sixteen. -/
def baseValue (base : Nat) (cs : List Char) : Nat :=
  cs.foldl (fun n c => base * n + hexValue c) 0

/-- The double nearest to `significand * 10 ^ exponent`. Magnitudes far outside
the range of doubles are settled without computing the power. -/
def ofScientific (significand : Nat) (exponent : Int) : Float :=
  let magnitude : Int := (digits significand).length + exponent
  if significand = 0 then 0.0
  else if 400 < magnitude then 1.0 / 0.0
  else if magnitude < -400 then 0.0
  else if exponent < 0 then Float.ofScientific significand true exponent.natAbs
  else Float.ofScientific significand false exponent.toNat

/-- The double nearest to an integer. -/
def ofInt (i : Int) : Float :=
  let x := ofScientific i.natAbs 0
  if i < 0 then -x else x

/-- The digits before and after the point of an unsigned decimal, and what
follows them. -/
def digitRuns (cs : List Char) : List Char × List Char × List Char :=
  match cs.dropWhile Char.isDigit with
  | '.' :: r => (cs.takeWhile Char.isDigit, r.takeWhile Char.isDigit,
      r.dropWhile Char.isDigit)
  | r => (cs.takeWhile Char.isDigit, [], r)

/-- The sign and the digits of an exponent. -/
def exponentParts : List Char → Bool × List Char
  | '-' :: ds => (true, ds)
  | '+' :: ds => (false, ds)
  | ds => (false, ds)

/-- The exponent at the end of an unsigned decimal, zero when
there is nothing. -/
def exponent? : List Char → Option Int
  | [] => some 0
  | e :: r =>
    let (negative, ds) := exponentParts r
    if (e == 'e' || e == 'E') && !ds.isEmpty && ds.all Char.isDigit then
      some (if negative then -(digitsValue ds : Int) else digitsValue ds)
    else none

/-- An unsigned decimal: digits with at most one point, at least one digit,
then perhaps an exponent. The text is read to its end, as a significand and a
power of ten. -/
def decimal? (cs : List Char) : Option (Nat × Int) :=
  let (whole, part, rest) := digitRuns cs
  if whole.isEmpty && part.isEmpty then none
  else (exponent? rest).map fun power =>
    (digitsValue (whole ++ part), power - part.length)

/-- The double that an unsigned decimal spells. -/
def unsigned? (cs : List Char) : Option Float :=
  (decimal? cs).map fun d => ofScientific d.1 d.2

/-- A decimal with an optional sign, or the name of an infinity or of no
number, letter case ignored. -/
def float? (cs : List Char) : Option Float :=
  let (negative, r) :=
    match cs with
    | '-' :: r => (true, r)
    | '+' :: r => (false, r)
    | r => (false, r)
  let signed := fun x : Float => if negative then -x else x
  match String.ofList (r.map Char.toLower) with
  | "inf" | "infinity" => some (signed (1.0 / 0.0))
  | "nan" => some (0.0 / 0.0)
  | _ => (unsigned? r).map signed

end GitPersona.Decimal
