/-
The exact value of a double, and the rounding that all decimal texts of
it rest on. A finite double is an integer times a power of two; nothing
below works on an approximation of it.
-/

namespace GitPersona.Decimal

-- ============================================================ exact values

/-- The value of a double: none, an infinity, or `mantissa * 2 ^ exponent`
with a sign. -/
inductive Binary
  | undefined
  | infinite (negative : Bool)
  | finite (negative : Bool) (mantissa : Nat) (exponent : Int)
  deriving DecidableEq, Repr

/-- The value that the bits of a double spell. -/
def Binary.ofBits (bits : Nat) : Binary :=
  let negative := decide (Nat.pow 2 63 ≤ bits)
  let field : Nat := bits / Nat.pow 2 52 % Nat.pow 2 11
  let fraction : Nat := bits % Nat.pow 2 52
  if field = 2047 then
    if fraction = 0 then .infinite negative else .undefined
  else if field = 0 then .finite negative fraction (-1074)
  else .finite negative (Nat.pow 2 52 + fraction) (field - 1075)

/-- The exact value of a double. -/
def Binary.ofFloat (x : Float) : Binary :=
  .ofBits x.toBits.toNat

/-- A positive value as a fraction of naturals. -/
def fraction (mantissa : Nat) (exponent : Int) : Nat × Nat :=
  (mantissa * Nat.pow 2 exponent.toNat, Nat.pow 2 (-exponent).toNat)

-- ================================================================ rounding

/-- The natural nearest to a fraction; of two equally near ones
the even one. -/
def roundDiv (num den : Nat) : Nat :=
  let q := num / den
  let twice := 2 * (num % den)
  if den < twice || (twice == den && q % 2 == 1) then q + 1 else q

-- ================================================================== digits

/-- The decimal digits of a natural. -/
def digits (n : Nat) : List Char :=
  Nat.toDigits 10 n

/-- The text of an integer. -/
def intChars (i : Int) : List Char :=
  if i < 0 then '-' :: digits i.natAbs else digits i.natAbs

/-- The text of an integer, as a string. -/
def intText (i : Int) : String :=
  String.ofList (intChars i)

/-- A text brought to a width with leading zeros. -/
def padZeros (width : Nat) (cs : List Char) : List Char :=
  List.replicate (width - cs.length) '0' ++ cs

end GitPersona.Decimal
