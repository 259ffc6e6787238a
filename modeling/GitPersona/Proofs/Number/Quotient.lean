/-
Quotients and sums of doubles, and the naturals that doubles hold.
Quotients and sums are rounded from the exact ones as products are
(`isRounding_div`, `isRounding_add`), and a natural that fits a
significand is its own double (`hasValue_ofNat`), so fractions of small
naturals are rounded once. Only infinities of both signs have no sum
(`isNumber_add`).

# Bounds in values

What is rounded from a value between two doubles has a value, and that
lies between them too (`IsRounding.exists_between`). Bounds of compound
expressions are found by one such step for each operation, each with
doubles of its own as bounds; a value that is a double is kept
(`IsRounding.hasValue`).
-/
import GitPersona.Proofs.Number.Arithmetic

namespace GitPersona.Number

open Float.Model (UnpackedFloat Format totalExponent)
open Float.Model.UnpackedFloat (Sign accuracyOfFraction divCore)
open Decimal (Binary Canonical)

variable {x y : Float} {s s' : Sign} {m m' : Nat} {e e' : Int} {p q : ℚ}

-- ============================================================= quotients

theorem signed_div (s s' : Sign) (p q : ℚ) :
    signed (s / s') (p / q) = signed s p / signed s' q := by
  cases s with
  | positive =>
      cases s' with
      | positive => rfl
      | negative => exact (div_neg p).symm
  | negative =>
      cases s' with
      | positive => exact neg_div' q p
      | negative => exact (neg_div_neg_eq p q).symm

/-- The bits that the dividend gains before the division make the quotient
wide enough. -/
theorem divCore_spec (hm : 0 < m) (hm' : 0 < m') :
    ∃ num f, divCore .binary64 m e m' e'
      = (num / m', f, accuracyOfFraction (num % m') m')
      ∧ (f ≤ -1074 ∨ 2 ^ 52 ≤ num / m')
      ∧ (num : ℚ) / m' * 2 ^ f = scaled m e / scaled m' e' := by
  obtain ⟨f, hf⟩ : ∃ f : Int, f = min (e - e')
      (max ((m.log2 : Int) + 1 + e - (m'.log2 + 1 + e') - 53) (-1074)) :=
    ⟨_, rfl⟩
  obtain ⟨k, hk⟩ : ∃ k : Nat, e - e' = f + k := ⟨(e - e' - f).toNat, by omega⟩
  have htarget : min (e - e') (Format.binary64.targetExponent
      (totalExponent m e - totalExponent m' e')) = f := hf.symm
  refine ⟨m * 2 ^ k, f, ?_, ?_, ?_⟩
  · have hshift : (e - e' - f).toNat = k := by omega
    unfold divCore
    dsimp only
    rw [htarget, hshift, Nat.shiftLeft_eq]
  · by_cases hleast : f ≤ -1074
    · exact Or.inl hleast
    · -- the unit is not the least one, so it was chosen for the width
      have hgain : 53 + m'.log2 ≤ m.log2 + k := by omega
      have hwidth : m' * 2 ^ 52 ≤ 2 ^ (m'.log2 + 1) * 2 ^ 52 :=
        Nat.mul_le_mul_right _ Nat.lt_log2_self.le
      have hreach : 2 ^ (m'.log2 + 1) * 2 ^ 52 ≤ 2 ^ m.log2 * 2 ^ k := by
        rw [← pow_add, ← pow_add]
        exact Nat.pow_le_pow_right (by norm_num) (by omega)
      refine Or.inr ((Nat.le_div_iff_mul_le hm').2 ?_)
      rw [mul_comm]
      exact hwidth.trans
        (hreach.trans (Nat.mul_le_mul_right _ (Nat.log2_self_le hm.ne')))
  · have hunit : (2 : ℚ) ^ e = 2 ^ k * 2 ^ f * 2 ^ e' := by
      rw [← zpow_natCast, ← zpow_add₀ two_ne_zero, ← zpow_add₀ two_ne_zero]
      congr 1
      omega
    have hdivisor : (m' : ℚ) ≠ 0 := by positivity
    have hscale : (2 : ℚ) ^ e' ≠ 0 := by positivity
    unfold scaled
    rw [hunit]
    push_cast
    field_simp

/-- A quotient is rounded from the exact one. -/
theorem rounds_div (hm' : 0 < m') :
    Rounds (UnpackedFloat.div .binary64 (ofParts s m e) (ofParts s' m' e'))
      (signed s (scaled m e) / signed s' (scaled m' e')) := by
  rw [← signed_div]
  by_cases hm : m = 0
  · subst hm
    rw [scaled_zero, zero_div, signed_zero, ofParts_zero, ofParts,
      dif_neg hm'.ne']
    exact rounds_zero (s / s')
  · obtain ⟨num, f, hcore, hfull, hvalue⟩ :=
      divCore_spec (Nat.pos_of_ne_zero hm) hm'
    rw [ofParts, ofParts, dif_neg hm, dif_neg hm'.ne', UnpackedFloat.div,
      hcore, ← hvalue]
    exact rounds_fraction (s / s') hm' hfull

theorem isRounding_div (hx : HasValue x p) (hy : HasValue y q) (hq : q ≠ 0) :
    IsRounding (x / y) (p / q) := by
  obtain ⟨negative, m, e, hx, rfl⟩ := hx
  obtain ⟨negative', m', e', hy, rfl⟩ := hy
  have hm' : 0 < m' := by
    apply Nat.pos_of_ne_zero
    rintro rfl
    rw [scaled_zero, signed_zero] at hq
    exact hq rfl
  have hrounds : Rounds
      (UnpackedFloat.div .binary64 (ofParts (signOf negative) m e)
      (ofParts (signOf negative') m' e')) _ := rounds_div hm'
  rw [← unpack_finite hx, ← unpack_finite hy] at hrounds
  exact ⟨_, rfl, hrounds⟩

-- ================================================================== sums

/-- A sum is the difference to the negative. -/
theorem add_eq_sub :
    UnpackedFloat.add .binary64 (ofParts s m e) (ofParts s' m' e')
    = UnpackedFloat.sub .binary64 (ofParts s m e) (ofParts (-s') m' e') := by
  have hneg : - -s' = s' := by cases s' <;> rfl
  by_cases hm : m = 0
  · by_cases hm' : m' = 0
    · subst hm hm'
      show _ = if s == - -s' then _ else _
      rw [hneg]
      rfl
    · rw [hm, ofParts_zero, sub_zero_left (Nat.pos_of_ne_zero hm'), hneg,
        ofParts, dif_neg hm']
      rfl
  · by_cases hm' : m' = 0
    · rw [hm', ofParts_zero, ofParts_zero,
        sub_zero_right (Nat.pos_of_ne_zero hm), ofParts, dif_neg hm]
      rfl
    · have happly : ∀ i : Int, (-s').apply i = -s'.apply i := by
        intro i
        cases s' with
        | positive => rfl
        | negative => exact (neg_neg i).symm
      rw [ofParts, ofParts, ofParts, dif_neg hm, dif_neg hm', dif_neg hm',
        UnpackedFloat.add, UnpackedFloat.sub]
      simp only [happly, sub_neg_eq_add]

theorem isRounding_add (hx : HasValue x p) (hy : HasValue y q) :
    IsRounding (x + y) (p + q) := by
  obtain ⟨negative, m, e, hx, rfl⟩ := hx
  obtain ⟨negative', m', e', hy, rfl⟩ := hy
  have hrounds := rounds_sub (Decimal.canonical_of_ofFloat hx)
    (Decimal.canonical_of_ofFloat hy)
    (signOf negative) (-signOf negative')
  rw [signed_neg, sub_neg_eq_add, ← add_eq_sub, ← unpack_finite hx,
    ← unpack_finite hy] at hrounds
  exact ⟨_, rfl, hrounds⟩

-- ================================================================ bounds

theorem hasValue_zero : HasValue 0.0 0 :=
  ⟨false, 0, -1074, by decide +kernel, by norm_num [signed, signOf, scaled]⟩

theorem hasValue_one : HasValue 1.0 1 :=
  ⟨false, 4503599627370496, -52, by decide +kernel, by
    norm_num [signed, signOf, scaled]⟩

/-- What is rounded from a value is a number. -/
theorem IsRounding.isNumber {value : ℚ} (h : IsRounding x value) :
    IsNumber x := by
  rcases le_total 0 value with hpositive | hnegative
  · exact (isNumber_of_le (h.ge_of_ge hasValue_zero hpositive)).2
  · exact (isNumber_of_le (h.le_of_le hasValue_zero hnegative)).1

/-- What is more than minus infinity has a value, or is the other infinity. -/
theorem exists_hasValue_or_infinite (hx : -1.0 / 0.0 < x) :
    (∃ p, HasValue x p) ∨ x.toModel.unpack = .infinity .positive := by
  cases hread : Binary.ofFloat x with
  | undefined =>
      have hnumber := (isNumber_of_le (le_of_lt hx)).2
      rw [IsNumber, line, unpack_eq, hread] at hnumber
      exact absurd rfl hnumber
  | infinite negative =>
      cases negative with
      | false => exact Or.inr (unpack_infinite hread)
      | true =>
          have hleast : Binary.ofFloat (-1.0 / 0.0) = .infinite true := by
            decide +kernel
          rw [lt_iff, line, line, unpack_infinite hleast,
            unpack_infinite hread] at hx
          exact absurd hx.2 (lt_irrefl _)
  | finite negative m e => exact Or.inl ⟨_, _, _, _, hread, rfl⟩

/-- A sum is a number, unless infinities of both signs meet in it. -/
theorem isNumber_add (hx : -1.0 / 0.0 < x) (hy : -1.0 / 0.0 < y) :
    IsNumber (x + y) := by
  have hadd : x + y
      = .ofModel (.pack (UnpackedFloat.add .binary64 x.toModel.unpack
        y.toModel.unpack)) := rfl
  have hinfinite : IsNumber (.ofModel (.pack (.infinity .positive))) :=
    (isNumber_of_le
      (le_of_lt (hasValue_zero.lt_infinite (ofFloat_infinity .positive)))).2
  rcases exists_hasValue_or_infinite hx with ⟨p, hp⟩ | hxinfinite
  · rcases exists_hasValue_or_infinite hy with ⟨q, hq⟩ | hyinfinite
    · exact (isRounding_add hp hq).isNumber
    · obtain ⟨negative, m, e, hfinite, -⟩ := hp
      rw [hadd, hyinfinite, unpack_finite hfinite, ofParts]
      split <;> exact hinfinite
  · rcases exists_hasValue_or_infinite hy with ⟨q, hq⟩ | hyinfinite
    · obtain ⟨negative, m, e, hfinite, -⟩ := hq
      rw [hadd, hxinfinite, unpack_finite hfinite, ofParts]
      split <;> exact hinfinite
    · rw [hadd, hxinfinite, hyinfinite]
      exact hinfinite

/-- What lies between doubles with values has a value between theirs. -/
theorem exists_hasValue_between {a b : Float} {low high : ℚ}
    (ha : HasValue a low)
    (hb : HasValue b high) (hax : a ≤ x) (hxb : x ≤ b) :
    ∃ p, HasValue x p ∧ low ≤ p ∧ p ≤ high := by
  rcases ha.of_le hax with ⟨p, hx, hlow⟩ | hinfinite
  · exact ⟨p, hx, hlow, (hx.le_iff hb).1 hxb⟩
  · exact absurd hxb (not_le_of_lt (hb.lt_infinite hinfinite))

theorem IsRounding.exists_between {a b : Float} {value low high : ℚ}
    (h : IsRounding x value)
    (ha : HasValue a low) (hb : HasValue b high) (hlow : low ≤ value)
    (hhigh : value ≤ high) :
    ∃ p, HasValue x p ∧ low ≤ p ∧ p ≤ high :=
  exists_hasValue_between ha hb (h.ge_of_ge ha hlow) (h.le_of_le hb hhigh)

/-- What is rounded from the value of a double has that value. -/
theorem IsRounding.hasValue {value : ℚ} (h : IsRounding x value)
    (hy : HasValue y value) :
    HasValue x value := by
  obtain ⟨p, hx, hlow, hhigh⟩ := h.exists_between hy hy le_rfl le_rfl
  rwa [le_antisymm hlow hhigh]

-- =============================================================== naturals

theorem exists_hasValue_natCast {n : Nat} (h : n < 2 ^ 53) :
    ∃ y, HasValue y n := by
  by_cases hn : n = 0
  · subst hn
    have hzero : Canonical 0 (-1074) := ⟨by norm_num, le_rfl, Or.inl rfl⟩
    refine ⟨_, false, 0, -1074,
      ofFloat_ofParts (s := .positive) hzero (by norm_num), ?_⟩
    rw [scaled_zero, signed_zero, Nat.cast_zero]
  · have hlog : n.log2 < 53 := (Nat.log2_lt hn).2 h
    obtain ⟨k, hk⟩ : ∃ k, n.log2 + k = 52 := ⟨52 - n.log2, by omega⟩
    have hcanonical : Canonical (n * 2 ^ k) (-k) := by
      refine ⟨?_, by omega, Or.inr ?_⟩
      · have hupper := Nat.mul_lt_mul_of_pos_right (Nat.lt_log2_self (n := n))
          (Nat.two_pow_pos k)
        rwa [← pow_add, Nat.add_right_comm, hk] at hupper
      · have hlower := Nat.mul_le_mul_right (2 ^ k) (Nat.log2_self_le hn)
        rwa [← pow_add, hk] at hlower
    refine ⟨_, false, n * 2 ^ k, -k,
      ofFloat_ofParts (s := .positive) hcanonical (by omega), ?_⟩
    show (n : ℚ) = scaled (n * 2 ^ k) (-k)
    rw [scaled_mul_pow, neg_add_cancel, scaled, zpow_zero, mul_one]

/-- A natural that fits a significand is its own double. -/
theorem hasValue_ofNat {n : Nat} (h : n < 2 ^ 53) :
    HasValue (Float.ofNat n) n := by
  obtain ⟨y, hy⟩ := exists_hasValue_natCast h
  obtain ⟨one, hone, hmade⟩ := ofNat_eq_mul h
  have hconverted : HasValue n.toUInt64.toFloat n :=
    (isRounding_toFloat (h.trans (by norm_num))).hasValue hy
  have hproduct := isRounding_mul hconverted hone
  rw [mul_one] at hproduct
  rw [hmade]
  exact hproduct.hasValue hy

end GitPersona.Number
