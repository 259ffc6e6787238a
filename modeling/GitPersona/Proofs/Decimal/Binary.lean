/-
A double is determined by its exact value and its sign. The value keeps
sign, exponent field and fraction apart, and the one thing that it
forgets, the fraction of what is no number, is the same for every double
(`eq_of_ofFloat_eq`). A finite value comes in one form only, the one
that `Canonical` describes.
-/
import GitPersona.Decimal.Binary
import Mathlib.Algebra.Group.Nat.Defs

namespace GitPersona.Decimal

open Float.Model (Format)
open Float.Model.UnpackedFloat (packedNaN unpackExponent unpackMantissa)

/-- A significand and an exponent as a double has them: the full width of the
significand is in use, except at the least exponent. -/
structure Canonical (mantissa : Nat) (exponent : Int) : Prop where
  lt : mantissa < 2 ^ 53
  least : -1074 ≤ exponent
  full : exponent = -1074 ∨ 2 ^ 52 ≤ mantissa

-- ================================================================= bits

/-- The bits of a double that is no number are always the same. -/
theorem bits_of_undefined {x : Float}
    (hfield : x.toBits.toNat / 2 ^ 52 % 2 ^ 11 = 2047)
    (hfraction : x.toBits.toNat % 2 ^ 52 ≠ 0) :
    x.toBits.toBitVec = packedNaN Format.binary64 := by
  refine x.toModel.valid.eq_packedNaN ?_ fun hzero => hfraction ?_
  · refine BitVec.eq_of_toNat_eq ?_
    rw [unpackExponent, BitVec.toNat_cast, BitVec.extractLsb_toNat,
      Nat.shiftRight_eq_div_pow]
    exact hfield
  · have hnat := congrArg BitVec.toNat hzero
    rw [unpackMantissa, BitVec.toNat_cast, BitVec.extractLsb_toNat,
      Nat.shiftRight_eq_div_pow, Nat.pow_zero, Nat.div_one] at hnat
    exact hnat

theorem eq_of_toBits_toNat_eq {x y : Float}
    (h : x.toBits.toNat = y.toBits.toNat) : x = y := by
  cases x with
  | ofModel a =>
      cases y with
      | ofModel b =>
          cases a
          cases b
          congr 2
          exact UInt64.toNat_inj.1 h

-- =============================================================== values

/-- The bits of a sign. -/
def signBits (negative : Bool) : Nat :=
  if negative then 2 ^ 63 else 0

/-- The bits of a finite value, without the sign. -/
def magnitudeBits (mantissa : Nat) (exponent : Int) : Nat :=
  if mantissa < 2 ^ 52 then mantissa
  else (exponent + 1075).toNat * 2 ^ 52 + (mantissa - 2 ^ 52)

/-- Bits are read by their sign, their exponent field and their fraction. -/
theorem ofBits_eq (n : Nat) : Binary.ofBits n
    = if n / 2 ^ 52 % 2 ^ 11 = 2047 then
        if n % 2 ^ 52 = 0 then .infinite (decide (2 ^ 63 ≤ n)) else .undefined
      else if n / 2 ^ 52 % 2 ^ 11 = 0
        then .finite (decide (2 ^ 63 ≤ n)) (n % 2 ^ 52) (-1074)
      else .finite (decide (2 ^ 63 ≤ n)) (2 ^ 52 + n % 2 ^ 52)
        ((n / 2 ^ 52 % 2 ^ 11 : Nat) - 1075) :=
  rfl

/-- What bits spell, and that a number can be spelled in one way only. -/
theorem ofBits_cases {n : Nat} (hn : n < 2 ^ 64) :
    (Binary.ofBits n = .undefined ∧ n / 2 ^ 52 % 2 ^ 11 = 2047
      ∧ n % 2 ^ 52 ≠ 0)
      ∨ (∃ negative, Binary.ofBits n = .infinite negative
          ∧ n = signBits negative + 2047 * 2 ^ 52)
      ∨ ∃ negative mantissa exponent,
        Binary.ofBits n = .finite negative mantissa exponent
          ∧ Canonical mantissa exponent ∧ n = signBits negative
            + magnitudeBits mantissa exponent := by
  have hsign : signBits (decide (2 ^ 63 ≤ n)) = n / 2 ^ 63 * 2 ^ 63 := by
    unfold signBits
    split
    · next h =>
      rw [decide_eq_true_eq] at h
      omega
    · next h =>
      rw [decide_eq_true_eq] at h
      omega
  rw [ofBits_eq]
  by_cases htop : n / 2 ^ 52 % 2 ^ 11 = 2047
  · rw [if_pos htop]
    by_cases hfraction : n % 2 ^ 52 = 0
    · rw [if_pos hfraction]
      exact Or.inr (Or.inl ⟨_, rfl, by rw [hsign]; omega⟩)
    · rw [if_neg hfraction]
      exact Or.inl ⟨rfl, htop, hfraction⟩
  · rw [if_neg htop]
    refine Or.inr (Or.inr ?_)
    by_cases hzero : n / 2 ^ 52 % 2 ^ 11 = 0
    · rw [if_pos hzero]
      refine ⟨_, _, _, rfl, ⟨by omega, by omega, Or.inl rfl⟩, ?_⟩
      rw [hsign, magnitudeBits, if_pos (by omega)]
      omega
    · rw [if_neg hzero]
      refine ⟨_, _, _, rfl, ⟨by omega, by omega, Or.inr (by omega)⟩, ?_⟩
      rw [hsign, magnitudeBits, if_neg (by omega)]
      omega

/-- A finite double has its value in canonical form. -/
theorem canonical_of_ofFloat {x : Float} {negative : Bool} {mantissa : Nat}
    {exponent : Int}
    (h : Binary.ofFloat x = .finite negative mantissa exponent) :
    Canonical mantissa exponent := by
  rcases ofBits_cases x.toBits.toNat_lt with
    ⟨hx, -, -⟩ | ⟨_, hx, -⟩ | ⟨_, _, _, hx, hcanonical, -⟩
  · exact absurd (h.symm.trans hx) (by simp)
  · exact absurd (h.symm.trans hx) (by simp)
  · cases h.symm.trans hx
    exact hcanonical

/-- Doubles with one exact value and sign are equal. -/
theorem eq_of_ofFloat_eq {x y : Float}
    (h : Binary.ofFloat x = Binary.ofFloat y) : x = y := by
  apply eq_of_toBits_toNat_eq
  unfold Binary.ofFloat at h
  rcases ofBits_cases x.toBits.toNat_lt with
    ⟨hx, hfield, hfraction⟩ | ⟨_, hx, hbits⟩
    | ⟨_, _, _, hx, -, hbits⟩
  all_goals
    rcases ofBits_cases y.toBits.toNat_lt with
      ⟨hy, hfield', hfraction'⟩ | ⟨_, hy, hbits'⟩
      | ⟨_, _, _, hy, -, hbits'⟩
  all_goals
    rw [hx, hy] at h
    cases h
  · exact congrArg BitVec.toNat
      ((bits_of_undefined hfield hfraction).trans
        (bits_of_undefined hfield' hfraction').symm)
  · exact hbits.trans hbits'.symm
  · exact hbits.trans hbits'.symm

end GitPersona.Decimal
