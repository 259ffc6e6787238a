/-
The double nearest to a value, of two that are equally near the even
one (`Nearest`). A value has one unit in which it is rounded: the least
one that there is, or the one in which the value takes the full width of
a significand (`Fills`). In that unit it is rounded to the nearest
natural (`NearestTo`).

# Why the order of values is kept

In one unit the nearest naturals are in order as the values are
(`NearestTo.mono`): two neighbours in the wrong order would both have to
be even. A greater value has no smaller unit (`Fills.mono`), and in a
smaller unit a value is rounded to no more than where the greater unit
begins. A greater value is therefore never rounded to less
(`Nearest.mono`), whatever the signs are (`Nearest.signed_mono`). As a
double is rounded to itself (`nearest_self`), no double lies between a
value and what it is rounded to.
-/
import GitPersona.Proofs.Decimal.Binary
import Mathlib

namespace GitPersona.Number

open Float.Model.UnpackedFloat (Sign)
open Decimal (Canonical)

-- ========================================================= exact values

/-- The value of a significand and an exponent. -/
def scaled (m : Nat) (e : Int) : ℚ :=
  m * 2 ^ e

/-- A scaled number is not negative. -/
theorem scaled_nonneg (m : Nat) (e : Int) : 0 ≤ scaled m e := by
  unfold scaled
  positivity

@[simp]
theorem scaled_zero (e : Int) : scaled 0 e = 0 := by
  simp [scaled]

/-- Bits that a significand gains are powers of two that its exponent loses. -/
theorem scaled_mul_pow (m k : Nat) (e : Int) :
    scaled (m * 2 ^ k) e = scaled m (e + k) := by
  unfold scaled
  rw [zpow_add₀ (by norm_num), zpow_natCast]
  push_cast
  ring

/-- On one scale, values compare as the numbers do. -/
theorem scaled_le_scaled_iff {m m' : Nat} {e : Int} :
    scaled m e ≤ scaled m' e ↔ m ≤ m' := by
  have hpos : (0 : ℚ) < 2 ^ e := by positivity
  unfold scaled
  rw [mul_le_mul_iff_left₀ hpos, Nat.cast_le]

theorem scaled_lt_scaled_iff {m m' : Nat} {e : Int} :
    scaled m e < scaled m' e ↔ m < m' := by
  rw [← not_le, scaled_le_scaled_iff, not_le]

/-- A scaled number is positive when the number is. -/
theorem scaled_pos_iff {m : Nat} {e : Int} : 0 < scaled m e ↔ 0 < m := by
  rw [← scaled_zero e, scaled_lt_scaled_iff]

/-- What is just too wide under one exponent is at most what has the full width
under a greater one. -/
theorem scaled_full_le {m : Nat} {e e' : Int} (he : e < e') (hm : 2 ^ 52 ≤ m) :
    scaled (2 ^ 53) e ≤ scaled m e' := by
  obtain ⟨k, rfl⟩ : ∃ k : Nat, e' = e + (k + 1 : Nat) :=
    ⟨(e' - e - 1).toNat, by omega⟩
  rw [← scaled_mul_pow, scaled_le_scaled_iff]
  calc 2 ^ 53 = 2 ^ 52 * 2 := rfl
    _ ≤ m * 2 ^ (k + 1) := by
      refine Nat.mul_le_mul hm ?_
      rw [pow_succ]
      exact Nat.le_mul_of_pos_left 2 (Nat.two_pow_pos k)

/-- A significand that fits is below any of the full width under a
greater exponent. -/
theorem scaled_lt_of_lt {m m' : Nat} {e e' : Int} (he : e < e')
    (hm : m < 2 ^ 53)
    (hm' : 2 ^ 52 ≤ m') : scaled m e < scaled m' e' :=
  (scaled_lt_scaled_iff.2 hm).trans_le (scaled_full_le he hm')

/-- Significands and exponents of doubles are in order as their values are. -/
theorem canonical_lt_iff {m m' : Nat} {e e' : Int} (h : Canonical m e)
    (h' : Canonical m' e') :
    scaled m e < scaled m' e' ↔ e < e' ∨ e = e' ∧ m < m' := by
  rcases lt_trichotomy e e' with he | rfl | he
  · have hfull : 2 ^ 52 ≤ m' := by
      rcases h'.full with heq | hfull
      · have := h.least
        omega
      · exact hfull
    simp [he, scaled_lt_of_lt he h.lt hfull]
  · simp [scaled_lt_scaled_iff]
  · have hfull : 2 ^ 52 ≤ m := by
      rcases h.full with heq | hfull
      · have := h'.least
        omega
      · exact hfull
    have hlt := scaled_lt_of_lt he h'.lt hfull
    constructor
    · intro hlt'
      exact absurd hlt' (not_lt.2 hlt.le)
    · rintro (hlt' | ⟨heq, -⟩)
      · omega
      · omega

-- ================================================================ signs

/-- A value with a sign. -/
def signed (s : Sign) (value : ℚ) : ℚ :=
  match s with
  | .positive => value
  | .negative => -value

@[simp]
theorem signed_zero (s : Sign) : signed s 0 = 0 := by
  cases s with
  | positive => rfl
  | negative => exact neg_zero

theorem signed_neg (s : Sign) (value : ℚ) :
    signed (-s) value = -signed s value := by
  cases s with
  | positive => rfl
  | negative => exact (neg_neg value).symm

theorem signed_mul (s s' : Sign) (p q : ℚ) :
    signed (s * s') (p * q) = signed s p * signed s' q := by
  cases s with
  | positive =>
      cases s' with
      | positive => rfl
      | negative => exact (mul_neg p q).symm
  | negative =>
      cases s' with
      | positive => exact (neg_mul p q).symm
      | negative => exact (neg_mul_neg p q).symm

/-- The value of a signed number of units. -/
theorem signed_apply (s : Sign) (n : Nat) (e : Int) :
    ((s.apply n : Int) : ℚ) * 2 ^ e = signed s (scaled n e) := by
  cases s with
  | positive =>
      show (((n : Nat) : Int) : ℚ) * 2 ^ e = n * 2 ^ e
      rw [Int.cast_natCast]
  | negative =>
      show ((-((n : Nat) : Int) : Int) : ℚ) * 2 ^ e = -(n * 2 ^ e)
      push_cast
      ring

/-- A sign does not change how far a value is from zero. -/
theorem abs_signed {s : Sign} {value : ℚ} (h : 0 ≤ value) :
    |signed s value| = value := by
  cases s with
  | positive => exact abs_of_nonneg h
  | negative => exact (abs_neg value).trans (abs_of_nonneg h)

-- ======================================================= nearest naturals

/-- A natural is nearest to a value; of two that are equally near it is
the even one. -/
structure NearestTo (value : ℚ) (n : Nat) : Prop where
  low : value ≤ n + 1 / 2
  high : n ≤ value + 1 / 2
  even : value = n + 1 / 2 ∨ n = value + 1 / 2 → Even n

/-- Less than half a unit above a number, that number is nearest. -/
theorem nearestTo_below {f : ℚ} (n : Nat) (hf : 0 ≤ f) (hhalf : f < 1 / 2) :
    NearestTo (n + f) n where
  low := by linarith
  high := by linarith
  even h := by
    rcases h with h | h
    · linarith
    · linarith

/-- More than half a unit above a number, the next one is nearest. -/
theorem nearestTo_above {f : ℚ} (n : Nat) (hhalf : 1 / 2 < f) (hf : f < 1) :
    NearestTo (n + f) (n + 1) where
  low := by
    push_cast
    linarith
  high := by
    push_cast
    linarith
  even h := by
    push_cast at h
    rcases h with h | h
    · linarith
    · linarith

/-- Half a unit above a number, the even one of the two is nearest. -/
theorem nearestTo_halfway (n : Nat) : NearestTo (n + 1 / 2) (n + n % 2) := by
  rcases Nat.mod_two_eq_zero_or_one n with hbit | hbit
  · rw [hbit, add_zero]
    exact ⟨le_rfl, by linarith, fun _ => Nat.even_iff.2 hbit⟩
  · rw [hbit]
    refine ⟨?_, ?_, fun _ => Nat.even_iff.2 (by omega)⟩
    · push_cast
      linarith
    · push_cast
      linarith

/-- A whole number is nearest to itself. -/
theorem nearestTo_natCast (n : Nat) : NearestTo n n := by
  have hbelow := nearestTo_below n le_rfl one_half_pos
  rwa [add_zero] at hbelow

/-- A greater value is nearest to no smaller natural. -/
theorem NearestTo.mono {value value' : ℚ} {n n' : Nat} (h : NearestTo value n)
    (h' : NearestTo value' n') (hle : value ≤ value') : n ≤ n' := by
  by_contra hlt
  have hstep : (n' : ℚ) + 1 ≤ n := by exact_mod_cast Nat.not_le.1 hlt
  have hlow := h'.low
  have hhigh := h.high
  -- the two would be neighbours, with both values halfway between them
  have hnext : (n : ℚ) = n' + 1 := by linarith
  have heven := h.even (Or.inr (by linarith))
  have heven' := h'.even (Or.inl (by linarith))
  obtain rfl : n = n' + 1 := by exact_mod_cast hnext
  exact Nat.even_add_one.1 heven heven'

-- ======================================================== nearest doubles

/-- The unit in which a value is rounded: the least one, or one that the value
fills to the full width, and not beyond it. -/
structure Fills (value : ℚ) (g : Int) : Prop where
  least : -1074 ≤ g
  full : g = -1074 ∨ scaled (2 ^ 52) g ≤ value
  lt : value < scaled (2 ^ 53) g

/-- A result is the multiple of a value's unit that is nearest to the value. -/
def Nearest (value : ℚ) (m : Nat) (e : Int) : Prop :=
  ∃ n g, scaled m e = scaled n g ∧ Fills value g ∧ NearestTo (value / 2 ^ g) n

/-- A value is at most a number of units when its share is at
most the number. -/
theorem value_le_scaled_iff {value : ℚ} {n : Nat} {g : Int} :
    value / 2 ^ g ≤ n ↔ value ≤ scaled n g :=
  div_le_iff₀ (by positivity)

/-- A value is at least a number of units when its share is at
least the number. -/
theorem scaled_le_value_iff {value : ℚ} {n : Nat} {g : Int} :
    n ≤ value / 2 ^ g ↔ scaled n g ≤ value :=
  le_div_iff₀ (by positivity)

/-- A greater value has no smaller unit. -/
theorem Fills.mono {value value' : ℚ} {g g' : Int} (h : Fills value g)
    (h' : Fills value' g')
    (hle : value ≤ value') : g ≤ g' := by
  by_contra hlt
  have hfull := h.full.resolve_left fun heq => hlt (heq ▸ h'.least)
  have hwide : scaled (2 ^ 53) g' ≤ scaled (2 ^ 52) g :=
    scaled_full_le (not_le.1 hlt) le_rfl
  linarith [h'.lt]

/-- A greater value is rounded to no less. -/
theorem Nearest.mono {value value' : ℚ} {m m' : Nat} {e e' : Int}
    (h : Nearest value m e)
    (h' : Nearest value' m' e') (hle : value ≤ value') :
    scaled m e ≤ scaled m' e' := by
  obtain ⟨n, g, hm, hfills, hn⟩ := h
  obtain ⟨n', g', hm', hfills', hn'⟩ := h'
  rw [hm, hm']
  rcases (hfills.mono hfills' hle).eq_or_lt with rfl | hlt
  · have hpos : (0 : ℚ) < 2 ^ g := by positivity
    exact scaled_le_scaled_iff.2
      (hn.mono hn' (div_le_div_of_nonneg_right hle hpos.le))
  · -- the greater unit begins where the smaller one ends
    have hfull := hfills'.full.resolve_left (hfills.least.trans_lt hlt).ne'
    have hhigh : n ≤ 2 ^ 53 :=
      hn.mono (nearestTo_natCast _) (value_le_scaled_iff.2 hfills.lt.le)
    have hlow : 2 ^ 52 ≤ n' :=
      (nearestTo_natCast _).mono hn' (scaled_le_value_iff.2 hfull)
    exact (scaled_le_scaled_iff.2 hhigh).trans (scaled_full_le hlt hlow)

/-- A double is rounded to itself. -/
theorem nearest_self {m : Nat} {e : Int} (h : Canonical m e) :
    Nearest (scaled m e) m e := by
  refine ⟨m, e, rfl, ⟨h.least, ?_, scaled_lt_scaled_iff.2 h.lt⟩, ?_⟩
  · exact h.full.imp_right scaled_le_scaled_iff.2
  · have hpos : (2 : ℚ) ^ e ≠ 0 := by positivity
    rw [scaled, mul_div_cancel_right₀ _ hpos]
    exact nearestTo_natCast m

theorem canonical_zero : Canonical 0 (-1074) :=
  ⟨by norm_num, le_rfl, Or.inl rfl⟩

/-- What is nearest to zero is zero. -/
theorem nearest_zero {m : Nat} {e : Int} (h : Nearest 0 m e) :
    scaled m e = 0 := by
  have hself := nearest_self canonical_zero
  rw [scaled_zero] at hself
  have hle := h.mono hself le_rfl
  rw [scaled_zero] at hle
  exact le_antisymm hle (scaled_nonneg m e)

/-- Signs keep the order of what values are rounded to. -/
theorem Nearest.signed_mono {value value' : ℚ} {m m' : Nat} {e e' : Int}
    (h : Nearest value m e)
    (h' : Nearest value' m' e') (hvalue : 0 ≤ value) (hvalue' : 0 ≤ value')
    {s s' : Sign}
    (hle : signed s value ≤ signed s' value') :
    signed s (scaled m e) ≤ signed s' (scaled m' e') := by
  have hresult := scaled_nonneg m e
  have hresult' := scaled_nonneg m' e'
  cases s with
  | positive =>
      cases s' with
      | positive => exact h.mono h' hle
      | negative =>
          change value ≤ -value' at hle
          obtain rfl : value = 0 := by linarith
          obtain rfl : value' = 0 := by linarith
          rw [nearest_zero h, nearest_zero h', signed_zero, signed_zero]
  | negative =>
      cases s' with
      | positive =>
          show -scaled m e ≤ scaled m' e'
          linarith
      | negative => exact neg_le_neg (h'.mono h (neg_le_neg_iff.1 hle))

end GitPersona.Number
