/-
The shortest decimal that reads back as a given double: the fewest
significant digits among the decimals in its rounding interval and, of
those, the nearest to it.
-/
import GitPersona.Decimal.Binary

namespace GitPersona.Decimal

-- ===================================================== the rounding interval

/-- The reals that round to a double, and the double, all as multiples of one
fraction of one: `low`, `high` and `value` over `den`. The ends belong to it
when `closed`. -/
structure Interval where
  low : Nat
  value : Nat
  high : Nat
  den : Nat
  closed : Bool

/-- The rounding interval of `mantissa * 2 ^ exponent`. Below a power of two
the gap to the next smaller double is half as wide. -/
def Interval.of (mantissa : Nat) (exponent : Int) : Interval :=
  let below := if mantissa = Nat.pow 2 52 ∧ -1074 < exponent then 1 else 2
  let scale := (exponent - 2).toNat
  { low := (4 * mantissa - below) * Nat.pow 2 scale
    value := 4 * mantissa * Nat.pow 2 scale
    high := (4 * mantissa + 2) * Nat.pow 2 scale
    den := Nat.pow 2 (2 - exponent).toNat
    closed := mantissa % 2 == 0 }

/-- The interval holds a natural. -/
def Interval.holds (i : Interval) (n : Nat) : Bool :=
  if i.closed then i.low ≤ n * i.den && n * i.den ≤ i.high
  else i.low < n * i.den && n * i.den < i.high

/-- The interval seen in units of `10 ^ place`. -/
def Interval.scaled (i : Interval) (place : Int) : Interval :=
  let up := Nat.pow 10 (-place).toNat
  { i with
    low := i.low * up
    value := i.value * up
    high := i.high * up
    den := i.den * Nat.pow 10 place.toNat }

-- ============================================================== the search

/-- A decimal `significand * 10 ^ place`. -/
structure Scientific where
  significand : Nat
  place : Int
  deriving Repr

/-- The decimal in the interval at one place, the nearer of the value's two
neighbours there. -/
def atPlace? (i : Interval) (place : Int) : Option Scientific :=
  let j := i.scaled place
  let q := j.value / j.den
  let twice := 2 * (j.value % j.den)
  let lowerIsNearer := twice < j.den || (twice == j.den && q % 2 == 0)
  if j.holds q && (!j.holds (q + 1) || lowerIsNearer) then some ⟨q, place⟩
  else if j.holds (q + 1) then some ⟨q + 1, place⟩
  else none

/-- The first place, from `place` downwards, at which the interval
holds a decimal. -/
def search (i : Interval) : Nat → Int → Option Scientific
  | 0, _ => none
  | n + 1, place =>
    match atPlace? i place with
    | some s => some s
    | none => search i n (place - 1)

/-- The shortest decimal that reads back as `mantissa * 2 ^ exponent`. -/
def shortest (mantissa : Nat) (exponent : Int) : Scientific :=
  (search (.of mantissa exponent) 634 309).getD ⟨0, 0⟩

-- ================================================================ text form

/-- A decimal with a point: positional from `1e-4` up to below `1e16`,
scientific beyond. -/
def Scientific.chars (s : Scientific) : List Char :=
  let ds := digits s.significand
  let point : Int := ds.length + s.place
  if point < -3 || 16 < point then
    let mark := if point - 1 < 0 then '-' else '+'
    let lead := match ds with
      | [d] => [d]
      | d :: r => d :: '.' :: r
      | [] => []
    lead ++ 'e' :: mark :: padZeros 2 (digits (point - 1).natAbs)
  else if point ≤ 0 then '0' :: '.' :: padZeros ((-point).toNat + ds.length) ds
  else if ds.length ≤ point.toNat then
    ds ++ List.replicate (point.toNat - ds.length) '0' ++ ['.', '0']
  else ds.take point.toNat ++ '.' :: ds.drop point.toNat

/-- The shortest text that reads back as a double. -/
def shortestChars (x : Float) : List Char :=
  match Binary.ofFloat x with
  | .undefined => ['n', 'a', 'n']
  | .infinite negative => if negative then ['-', 'i', 'n', 'f']
      else ['i', 'n', 'f']
  | .finite negative mantissa exponent =>
    let cs := if mantissa = 0 then ['0', '.', '0']
      else (shortest mantissa exponent).chars
    if negative then '-' :: cs else cs

end GitPersona.Decimal
