/-
Rounding an exact value to a double. A value is a fraction of naturals,
of any size, times a power of two; rounding keeps its whole part, shifts
it right until it fits, keeps of what falls off only whether it is
nothing, less than half, half or more, and goes to the nearer neighbour,
or to the even one. This chain of shifts comes to the nearest double
(`rounds_fraction`), because shifting with residual bits is dividing by
more (`shiftRight_wholePart`). `Rounds` says so of what an operation
gives, with its sign.
-/
import GitPersona.Proofs.Number.Nearest

namespace GitPersona.Number

open Float.Model (UnpackedFloat Format totalExponent)
open Float.Model.UnpackedFloat
  (Sign ExtendedMantissa Accuracy accuracyOfFraction)
open Decimal (Canonical)

-- ========================================================= shifting right

/-- The whole part of a fraction, with residual bits for what it leaves. -/
def wholePart (num den : Nat) : ExtendedMantissa :=
  .ofMantissaAndAccuracy (num / den) (accuracyOfFraction (num % den) den)

/-- Shifting by one bit halves a fraction. -/
theorem shiftRightOne_wholePart {den : Nat} (hden : 0 < den) (num : Nat) :
    (wholePart num den).shiftRightOne = wholePart num (den * 2) := by
  have hquotient : num / (den * 2) = num / den / 2 :=
    (Nat.div_div_eq_div_mul num den 2).symm
  have hrest : num % (den * 2) = num % den + den * (num / den % 2) :=
    Nat.mod_mul
  have hless := Nat.mod_lt num hden
  unfold wholePart accuracyOfFraction
  rw [hquotient, hrest]
  generalize num / den = q
  generalize num % den = rest at hless ⊢
  -- the bit that is shifted out decides on which side of a half the new rest
  -- lies
  rcases Nat.mod_two_eq_zero_or_one q with hbit | hbit
  · by_cases hzero : rest = 0
    · simp [hbit, hzero, ExtendedMantissa.ofMantissaAndAccuracy,
        ExtendedMantissa.shiftRightOne]
    · have hbelow : compare (2 * rest) (den * 2) = .lt :=
        compare_lt_iff_lt.2 (by omega)
      cases compare (2 * rest) den <;>
        simp [hbit, hzero, hbelow, ExtendedMantissa.ofMantissaAndAccuracy,
          ExtendedMantissa.shiftRightOne]
  · by_cases hzero : rest = 0
    · have hhalf : compare (2 * den) (den * 2) = .eq :=
        compare_eq_iff_eq.2 (by omega)
      simp [hbit, hzero, hden.ne', hhalf,
        ExtendedMantissa.ofMantissaAndAccuracy, ExtendedMantissa.shiftRightOne]
    · have habove : compare (2 * (rest + den)) (den * 2) = .gt :=
        compare_gt_iff_gt.2 (by omega)
      cases compare (2 * rest) den <;>
        simp [hbit, hzero, habove, ExtendedMantissa.ofMantissaAndAccuracy,
          ExtendedMantissa.shiftRightOne]

/-- Shifting right divides a fraction by a power of two. -/
theorem shiftRight_wholePart {den : Nat} (hden : 0 < den) (num k : Nat) :
    wholePart num den >>> k = wholePart num (den * 2 ^ k) := by
  induction k with
  | zero => rw [pow_zero, mul_one]; rfl
  | succ k ih =>
      have hpos : 0 < den * 2 ^ k := Nat.mul_pos hden (Nat.two_pow_pos k)
      have hstep : wholePart num den >>> (k + 1)
          = (wholePart num den >>> k).shiftRightOne := rfl
      rw [hstep, ih, shiftRightOne_wholePart hpos, pow_succ, mul_assoc]

/-- The rounded whole part of a fraction is nearest to the fraction. -/
theorem nearestTo_roundedMantissa {den : Nat} (hden : 0 < den) (num : Nat) :
    NearestTo (num / den) (wholePart num den).roundedMantissa := by
  obtain ⟨q, hq⟩ : ∃ q, q = num / den := ⟨_, rfl⟩
  obtain ⟨rest, hrest⟩ : ∃ rest, rest = num % den := ⟨_, rfl⟩
  have hpos : (0 : ℚ) < den := Nat.cast_pos.2 hden
  have hparts : (num : ℚ) / den = q + rest / den := by
    have hsum : num = den * q + rest := by rw [hq, hrest, Nat.div_add_mod]
    rw [hsum]
    push_cast
    field_simp
  have hrounded : (wholePart num den).roundedMantissa
      = (accuracyOfFraction rest den).roundToNearestEven q := by
    rw [wholePart, ← hq, ← hrest]
    cases accuracyOfFraction rest den with
    | exact => rfl
    | inexact side => cases side <;> rfl
  have hnonneg : (0 : ℚ) ≤ rest / den := by positivity
  have hless : (rest : ℚ) / den < 1 := by
    rw [div_lt_one hpos, Nat.cast_lt, hrest]
    exact Nat.mod_lt num hden
  rw [hrounded, hparts, accuracyOfFraction]
  split
  · next hzero =>
    rw [hzero, Nat.cast_zero, zero_div]
    exact nearestTo_below q le_rfl one_half_pos
  · -- the rest is compared with one half, where evenness decides
    rcases lt_trichotomy (2 * rest) den with hside | hside | hside
    · rw [compare_lt_iff_lt.2 hside]
      refine nearestTo_below q hnonneg ?_
      rw [div_lt_div_iff₀ hpos two_pos]
      exact_mod_cast (by omega : rest * 2 < 1 * den)
    · have hhalf : (rest : ℚ) / den = 1 / 2 := by
        rw [div_eq_div_iff hpos.ne' two_ne_zero]
        exact_mod_cast (by omega : rest * 2 = 1 * den)
      rw [compare_eq_iff_eq.2 hside, hhalf]
      exact nearestTo_halfway q
    · rw [compare_gt_iff_gt.2 hside]
      refine nearestTo_above q ?_ hless
      rw [div_lt_div_iff₀ two_pos hpos]
      exact_mod_cast (by omega : 1 * den < rest * 2)

-- =============================================================== rounding

/-- What a sign, a significand and an exponent make. -/
def ofParts (s : Sign) (m : Nat) (e : Int) : UnpackedFloat :=
  if h : m = 0 then .zero s else .finite s m e (Nat.pos_of_ne_zero h)

theorem ofParts_zero (s : Sign) (e : Int) : ofParts s 0 e = .zero s :=
  rfl

/-- What an operation gives is a double, or what overflows one, and is what a
value is rounded to. -/
def Rounds (u : UnpackedFloat) (value : ℚ) : Prop :=
  ∃ s m e amount, u = ofParts s m e ∧ Canonical m e ∧ Nearest amount m e
    ∧ 0 ≤ amount
    ∧ value = signed s amount

theorem rounds_self {m : Nat} {e : Int} (h : Canonical m e) (s : Sign) :
    Rounds (ofParts s m e) (signed s (scaled m e)) :=
  ⟨s, m, e, scaled m e, rfl, h, nearest_self h, scaled_nonneg m e, rfl⟩

theorem rounds_zero (s : Sign) : Rounds (.zero s) 0 := by
  have hself := rounds_self canonical_zero s
  rw [ofParts_zero, scaled_zero, signed_zero] at hself
  exact hself

-- ====================================================== the steps of rounding

/-- A significand is shifted right as far as the target exponent is
above its own. -/
theorem shiftToTargetExponent_eq {m k : Nat} {e : Int} (accuracy : Accuracy)
    (hk : (max (m.log2 + 1 + e - 53) (-1074) - e).toNat = k) :
    UnpackedFloat.shiftToTargetExponent .binary64 m e accuracy
      = (ExtendedMantissa.ofMantissaAndAccuracy m accuracy >>> k, e + k) := by
  have htarget : Format.binary64.targetExponent (totalExponent m e)
      = max (m.log2 + 1 + e - 53) (-1074) := rfl
  unfold UnpackedFloat.shiftToTargetExponent UnpackedFloat.shiftToExponent
  dsimp only
  rw [htarget, hk]

/-- Shifted to the target exponent, a significand fits, and has the full width
above the least. -/
theorem width_of_target {m k : Nat} {e : Int}
    (hk : e + k = max (m.log2 + 1 + e - 53) (-1074)) :
    m < 2 ^ 53 * 2 ^ k ∧ (e + k = -1074 ∨ 2 ^ 52 * 2 ^ k ≤ m) := by
  simp only [← pow_add]
  constructor
  · have hwidth : m.log2 + 1 ≤ 53 + k := by omega
    exact Nat.lt_log2_self.trans_le (Nat.pow_le_pow_right (by norm_num) hwidth)
  · by_cases hleast : e + k = -1074
    · exact Or.inl hleast
    · have hwidth : 52 + k ≤ m.log2 := by omega
      have hm : m ≠ 0 := by
        rintro rfl
        rw [Nat.log2_zero] at hwidth
        omega
      exact Or.inr ((Nat.pow_le_pow_right (by norm_num) hwidth).trans
        (Nat.log2_self_le hm))

/-- A significand that rounding has made one bit too wide loses that bit. -/
theorem exists_shiftToTargetExponent {r : Nat} {g : Int} (hr : r ≤ 2 ^ 53)
    (hg : -1074 ≤ g) :
    ∃ m e, UnpackedFloat.shiftToTargetExponent .binary64 r g .exact
      = (⟨m, false, false⟩, e)
      ∧ scaled m e = scaled r g ∧ m < 2 ^ 53 ∧ g ≤ e
      ∧ (e = g ∧ m = r ∨ m = 2 ^ 52) := by
  by_cases hwide : r = 2 ^ 53
  · subst hwide
    have hlog : (2 ^ 53 : Nat).log2 = 53 := Nat.log2_two_pow
    refine ⟨2 ^ 52, g + 1, shiftToTargetExponent_eq (k := 1) .exact ?_,
      ?_, by norm_num, by omega,
      Or.inr rfl⟩
    · rw [hlog]
      omega
    · exact (scaled_mul_pow (2 ^ 52) 1 g).symm
  · have hlog : r.log2 < 53 := by
      by_cases hzero : r = 0
      · subst hzero
        norm_num
      · exact (Nat.log2_lt hzero).2 (by omega)
    have hkept := shiftToTargetExponent_eq (m := r) (k := 0) (e := g) .exact
      (by omega)
    exact ⟨r, g + 0, hkept, by rw [add_zero], by omega, by omega,
      Or.inl ⟨add_zero g, rfl⟩⟩

/-- In a greater unit a fraction is one of a greater denominator. -/
theorem fraction_in_units (num : Nat) {den : Nat} (hden : 0 < den) (e : Int)
    (k : Nat) :
    (num : ℚ) / den * 2 ^ e / 2 ^ (e + k) = num / (den * 2 ^ k : Nat) := by
  have hdenominator : (den : ℚ) ≠ 0 := by positivity
  rw [zpow_add₀ two_ne_zero, zpow_natCast]
  push_cast
  field_simp

/-- The target exponent is the unit that a fraction fills. -/
theorem fills_fraction {num den k : Nat} {e : Int} (hden : 0 < den)
    (hk : e + k = max ((num / den).log2 + 1 + e - 53) (-1074)) :
    Fills (num / den * 2 ^ e) (e + k) := by
  obtain ⟨hupper, hlower⟩ := width_of_target hk
  rw [Nat.div_lt_iff_lt_mul hden, mul_assoc, mul_comm (2 ^ k)] at hupper
  rw [Nat.le_div_iff_mul_le hden, mul_assoc, mul_comm (2 ^ k)] at hlower
  have hpos : (0 : ℚ) < (den * 2 ^ k : Nat) :=
    Nat.cast_pos.2 (Nat.mul_pos hden (Nat.two_pow_pos k))
  refine ⟨by omega, hlower.imp_right fun hwide => ?_, ?_⟩
  · rw [← scaled_le_value_iff, fraction_in_units num hden, le_div_iff₀ hpos]
    exact_mod_cast hwide
  · rw [← not_le, ← scaled_le_value_iff, not_le, fraction_in_units num hden,
      div_lt_iff₀ hpos]
    exact_mod_cast hupper

/-- A fraction whose whole part has the full width, or the least exponent, is
rounded at once. -/
theorem rounds_fraction {num den : Nat} {e : Int} (s : Sign) (hden : 0 < den)
    (hfull : e ≤ -1074 ∨ 2 ^ 52 ≤ num / den) :
    Rounds (UnpackedFloat.roundWithAccuracy .binary64 s (num / den) e
      (accuracyOfFraction (num % den) den)) (signed s
        (num / den * 2 ^ e)) := by
  have hlog : 2 ^ 52 ≤ num / den → 52 ≤ (num / den).log2 :=
    fun h => (Nat.le_log2 (by omega)).2 h
  obtain ⟨k, hk⟩ : ∃ k : Nat, e + k
    = max ((num / den).log2 + 1 + e - 53) (-1074) :=
    ⟨(max ((num / den).log2 + 1 + e - 53) (-1074) - e).toNat, by omega⟩
  have hfills := fills_fraction hden hk
  -- the shift to the target, the rounding of what it leaves, and a second
  -- shift if that is too wide
  have hround := nearestTo_roundedMantissa
    (Nat.mul_pos hden (Nat.two_pow_pos k)) num
  rw [← fraction_in_units num hden e k] at hround
  have hfirst : UnpackedFloat.shiftToTargetExponent .binary64 (num / den) e
      (accuracyOfFraction (num % den) den)
        = (wholePart num (den * 2 ^ k), e + k) := by
    rw [← shiftRight_wholePart hden]
    exact shiftToTargetExponent_eq _ (by omega)
  generalize wholePart num (den * 2 ^ k) = rest at hround hfirst
  have hnarrow : rest.roundedMantissa ≤ 2 ^ 53 :=
    hround.mono (nearestTo_natCast _) (value_le_scaled_iff.2 hfills.lt.le)
  obtain ⟨m', e', hsecond, hsame, hlt, hle, hcases⟩ :=
    exists_shiftToTargetExponent (g := e + k) hnarrow (by omega)
  refine ⟨s, m', e', num / den * 2 ^ e, ?_, ⟨hlt, by omega, ?_⟩,
    ⟨_, _, hsame, hfills, hround⟩,
    by positivity, rfl⟩
  · unfold UnpackedFloat.roundWithAccuracy
    simp only [hfirst, hsecond]
    rfl
  · rcases hcases with ⟨rfl, rfl⟩ | hm'
    · exact hfills.full.imp_right fun h =>
        (nearestTo_natCast _).mono hround (scaled_le_value_iff.2 h)
    · exact Or.inr hm'.ge

/-- A value that has the full width, or the least exponent, is
rounded at once. -/
theorem rounds_roundWithAccuracy {m : Nat} {e : Int} (s : Sign)
    (hfull : e ≤ -1074 ∨ 2 ^ 52 ≤ m) :
    Rounds (UnpackedFloat.roundWithAccuracy .binary64 s m e .exact)
      (signed s (scaled m e)) := by
  have hfull' : e ≤ -1074 ∨ 2 ^ 52 ≤ m / 1 := (Nat.div_one m).symm ▸ hfull
  have hfraction := rounds_fraction s one_pos hfull'
  rw [Nat.div_one, Nat.mod_one, Nat.cast_one, div_one] at hfraction
  exact hfraction

/-- Any value is rounded once bits that are missing to the full width are
made up for. -/
theorem rounds_round {m : Nat} (s : Sign) (hm : 0 < m) (e : Int) :
    Rounds (UnpackedFloat.round .binary64 s m e) (signed s (scaled m e)) := by
  unfold UnpackedFloat.round UnpackedFloat.decreaseExponent
  dsimp only
  obtain ⟨g, hg⟩ : ∃ g, g = max (m.log2 + 1 + e - 53) (-1074) := ⟨_, rfl⟩
  have htarget : Format.binary64.targetExponent (totalExponent m e) = g :=
    hg.symm
  obtain ⟨k, hk⟩ : ∃ k, k = (e - g).toNat := ⟨_, rfl⟩
  rw [htarget, ← hk, Nat.shiftLeft_eq]
  have hsame : scaled m e = scaled (m * 2 ^ k) (e - k) := by
    rw [scaled_mul_pow]
    congr 1
    omega
  rw [hsame]
  refine rounds_roundWithAccuracy s ?_
  by_cases hleast : e - k ≤ -1074
  · exact Or.inl hleast
  · refine Or.inr ?_
    have hwidth : 2 ^ m.log2 * 2 ^ k ≤ m * 2 ^ k :=
      Nat.mul_le_mul_right _ (Nat.log2_self_le hm.ne')
    rw [← pow_add] at hwidth
    exact (Nat.pow_le_pow_right (by norm_num) (by omega)).trans hwidth

/-- A whole number of units, of either sign, is rounded by its amount. -/
theorem rounds_normalize (i e : Int) :
    Rounds (UnpackedFloat.normalize .binary64 i e .positive) (i * 2 ^ e) := by
  unfold UnpackedFloat.normalize
  rcases lt_trichotomy i 0 with hi | rfl | hi
  · rw [compare_lt_iff_lt.2 hi]
    have hamount : (i : ℚ) * 2 ^ e
        = signed .negative (scaled (-i).toNat e) := by
      rw [← signed_apply, Sign.apply, Int.toNat_of_nonneg (by omega), neg_neg]
    rw [hamount]
    exact rounds_round .negative (by omega) e
  · rw [compare_eq_iff_eq.2 rfl, Int.cast_zero, zero_mul]
    exact rounds_zero .positive
  · rw [compare_gt_iff_gt.2 hi]
    have hamount : (i : ℚ) * 2 ^ e = signed .positive (scaled i.toNat e) := by
      rw [← signed_apply, Sign.apply, Int.toNat_of_nonneg (by omega)]
    rw [hamount]
    exact rounds_round .positive (by omega) e

end GitPersona.Number
