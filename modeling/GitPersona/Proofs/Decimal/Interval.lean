/-
The shortest decimal of a double lies among the reals that round to the
double (`shortest_roundsTo`): at the last place of the search the
decimals are closer together than the ends of any such interval, so the
search finds one, and what it finds is checked against the interval. Two
doubles have no such real in common (`RoundsTo.unique`): where their
intervals touch, one of them has an odd significand and leaves the end
out.
-/
import GitPersona.Decimal.Shortest
import GitPersona.Proofs.Decimal.Binary
import Mathlib.Algebra.Order.Field.Power
import Mathlib.Algebra.Order.Field.Rat
import Mathlib.Tactic.Linarith
import Mathlib.Tactic.Positivity
import Mathlib.Tactic.NormNum
import Mathlib.Tactic.Ring

namespace GitPersona.Decimal

-- ======================================================== the real interval

/-- The lower end of the interval of reals that round to a double, in quarters
of a unit in the last place: half a unit below, or a quarter where the next
smaller double is closer. -/
def lowQuarters (mantissa : Nat) (exponent : Int) : Int :=
  4 * mantissa - (if mantissa = 2 ^ 52 ∧ -1074 < exponent then 1 else 2)

/-- The lower end of the interval. -/
def lowEnd (mantissa : Nat) (exponent : Int) : ℚ :=
  lowQuarters mantissa exponent * 2 ^ (exponent - 2)

/-- The upper end of the interval, half a unit above. -/
def highEnd (mantissa : Nat) (exponent : Int) : ℚ :=
  (4 * mantissa + 2 : Int) * 2 ^ (exponent - 2)

/-- A number is in the interval, whose ends belong to it when the
significand is even. -/
structure RoundsTo (mantissa : Nat) (exponent : Int) (v : ℚ) : Prop where
  low : lowEnd mantissa exponent ≤ v
  high : v ≤ highEnd mantissa exponent
  isOpen : mantissa % 2 = 1 → lowEnd mantissa exponent < v
    ∧ v < highEnd mantissa exponent

/-- The value of a decimal. -/
def Scientific.value (s : Scientific) : ℚ :=
  s.significand * 10 ^ s.place

-- ================================================================ disjoint

/-- In quarters of the smaller unit, intervals of larger doubles begin where
those of smaller ones have ended, and where two touch, one is open. -/
theorem high_le_lowQuarters {m m' : Nat} {e e' : Int} {d : Nat}
    (h : Canonical m e)
    (h' : Canonical m' e') (he : e' = e + d) (hlt : d = 0 → m < m') :
    4 * (m : Int) + 2 ≤ lowQuarters m' e' * 2 ^ d
      ∧ (4 * (m : Int) + 2 = lowQuarters m' e' * 2 ^ d →
        m % 2 = 1 ∨ m' % 2 = 1) := by
  have hbound := h.lt
  have hfull := h.full
  have hfull' := h'.full
  have hleast := h.least
  cases d with
  | zero =>
      have hm := hlt rfl
      rw [pow_zero, mul_one, lowQuarters]
      split <;> omega
  | succ d =>
      have hlow : 2 ^ 54 - 1 ≤ lowQuarters m' e' := by
        rw [lowQuarters]
        split <;> omega
      have hscale : lowQuarters m' e' * 2 ≤ lowQuarters m' e'
          * 2 ^ (d + 1) := by
        have hpow : (1 : Int) ≤ 2 ^ d := one_le_pow₀ (by norm_num)
        rw [pow_succ']
        nlinarith
      constructor
      · omega
      · intro heq
        omega

theorem highEnd_le_lowEnd {m m' : Nat} {e e' : Int} (h : Canonical m e)
    (h' : Canonical m' e')
    (hlt : e < e' ∨ e = e' ∧ m < m') :
    highEnd m e ≤ lowEnd m' e'
      ∧ (highEnd m e = lowEnd m' e' → m % 2 = 1 ∨ m' % 2 = 1) := by
  obtain ⟨d, he⟩ : ∃ d : Nat, e' = e + d := ⟨(e' - e).toNat, by omega⟩
  obtain ⟨hle, hodd⟩ := high_le_lowQuarters h h' he (by omega)
  have hunit : (0 : ℚ) < 2 ^ (e - 2) := by positivity
  have hlow : lowEnd m' e' = (lowQuarters m' e' * 2 ^ d : Int)
      * 2 ^ (e - 2) := by
    rw [lowEnd, show e' - 2 = d + (e - 2) by omega, zpow_add₀ (by norm_num),
      zpow_natCast, ← mul_assoc]
    push_cast
    rfl
  rw [highEnd, hlow]
  refine ⟨mul_le_mul_of_nonneg_right (by exact_mod_cast hle) hunit.le,
    fun heq => hodd ?_⟩
  exact_mod_cast mul_right_cancel₀ hunit.ne' heq

theorem RoundsTo.not_lt {m m' : Nat} {e e' : Int} {v : ℚ} (h : RoundsTo m e v)
    (h' : RoundsTo m' e' v) (hc : Canonical m e) (hc' : Canonical m' e') :
    ¬ (e < e' ∨ e = e' ∧ m < m') := by
  intro hlt
  obtain ⟨hle, hodd⟩ := highEnd_le_lowEnd hc hc' hlt
  rcases hodd (le_antisymm hle (h'.low.trans h.high)) with hm | hm'
  · have hv := (h.isOpen hm).2
    exact absurd (hle.trans h'.low) (not_le.2 hv)
  · have hv := (h'.isOpen hm').1
    exact absurd (h.high.trans hle) (not_le.2 hv)

/-- No number rounds to two doubles. -/
theorem RoundsTo.unique {m m' : Nat} {e e' : Int} {v : ℚ} (h : RoundsTo m e v)
    (h' : RoundsTo m' e' v) (hc : Canonical m e) (hc' : Canonical m' e') :
    m = m' ∧ e = e' := by
  have hone := h.not_lt h' hc hc'
  have hother := h'.not_lt h hc' hc
  omega

-- ================================================================ search

theorem atPlace?_eq_some {i : Interval} {place : Int} {s : Scientific}
    (h : atPlace? i place = some s) :
    s.place = place ∧ (i.scaled place).holds s.significand = true := by
  unfold atPlace? at h
  simp only at h
  split at h
  · next hlower =>
    rw [Bool.and_eq_true] at hlower
    cases h
    exact ⟨rfl, hlower.1⟩
  · split at h
    · next hupper =>
      cases h
      exact ⟨rfl, hupper⟩
    · cases h

/-- What the search finds is a decimal in the interval. -/
theorem search_eq_some {i : Interval} {s : Scientific} {n : Nat} {place : Int}
    (h : search i n place = some s) :
    (i.scaled s.place).holds s.significand = true := by
  induction n generalizing place with
  | zero => cases h
  | succ n ih =>
      rw [search] at h
      split at h
      · next found hfound =>
        cases h
        obtain ⟨hplace, hholds⟩ := atPlace?_eq_some hfound
        rw [hplace]
        exact hholds
      · exact ih h

/-- The search finds something if there is something to find at one
of its places. -/
theorem isSome_search {i : Interval} {n k : Nat} {place : Int} (hk : k < n)
    (h : (atPlace? i (place - k)).isSome = true) :
    (search i n place).isSome = true := by
  induction n generalizing place k with
  | zero => cases hk
  | succ n ih =>
      rw [search]
      split
      · rfl
      · next hnone =>
        cases k with
        | zero =>
            rw [Int.natCast_zero, Int.sub_zero] at h
            rw [hnone] at h
            cases h
        | succ k =>
            refine ih (Nat.lt_of_succ_lt_succ hk) ?_
            rw [show place - 1 - (k : Int) = place - ((k + 1 : Nat) : Int) by
              omega]
            exact h

/-- The next decimal after the value is in an interval that reaches far
enough beyond it. -/
theorem holds_succ {i : Interval} (hden : 0 < i.den) (hlow : i.low ≤ i.value)
    (hhigh : i.value + i.den < i.high) :
    i.holds (i.value / i.den + 1) = true := by
  have hfloor : i.value / i.den * i.den ≤ i.value := Nat.div_mul_le_self _ _
  have hnext : i.value < i.value / i.den * i.den + i.den :=
    Nat.lt_div_mul_add hden
  rw [Interval.holds, Nat.add_mul, Nat.one_mul]
  split
  · simp only [Bool.and_eq_true, decide_eq_true_eq]
    omega
  · simp only [Bool.and_eq_true, decide_eq_true_eq]
    omega

theorem isSome_atPlace? {i : Interval} {place : Int}
    (h : (i.scaled place).holds
        ((i.scaled place).value / (i.scaled place).den + 1) = true) :
    (atPlace? i place).isSome = true := by
  simp only [atPlace?, h, if_true]
  split <;> rfl

/-- At the last place of the search there is a decimal in every interval. -/
theorem isSome_atPlace?_last {m : Nat} {e : Int} (he : -1074 ≤ e) :
    (atPlace? (Interval.of m e) (-324)).isSome = true := by
  refine isSome_atPlace? (holds_succ ?_ ?_ ?_)
  · exact Nat.mul_pos (Nat.pow_pos (by norm_num)) (Nat.pow_pos (by norm_num))
  · exact Nat.mul_le_mul_right _ (Nat.mul_le_mul_right _ (Nat.sub_le _ _))
  · show 4 * m * 2 ^ (e - 2).toNat * Nat.pow 10 (-(-324 : Int)).toNat
        + 2 ^ (2 - e).toNat * 1
      < (4 * m + 2) * 2 ^ (e - 2).toNat * Nat.pow 10 (-(-324 : Int)).toNat
    -- half the least unit is more than a decimal at this place
    obtain ⟨k, hk, hfine⟩ : ∃ k, (2 - e).toNat ≤ k
        ∧ 2 ^ k < 2 * Nat.pow 10 (-(-324 : Int)).toNat :=
      ⟨1076, by omega, by decide +kernel⟩
    have hden : 2 ^ (2 - e).toNat ≤ 2 ^ k :=
      Nat.pow_le_pow_right (by norm_num) hk
    have hscale : 1 ≤ 2 ^ (e - 2).toNat := Nat.one_le_two_pow
    generalize Nat.pow 10 (-(-324 : Int)).toNat = up at hfine ⊢
    have hup : up ≤ 2 ^ (e - 2).toNat * up := Nat.le_mul_of_pos_left _ hscale
    nlinarith

-- ============================================================= shortest

/-- A power with an integer exponent, as a fraction of naturals. -/
theorem zpow_eq_div {b : Nat} (hb : 0 < b) (z : Int) :
    (b : ℚ) ^ z = (b ^ z.toNat : Nat) / (b ^ (-z).toNat : Nat) := by
  have hb' : (b : ℚ) ≠ 0 := by positivity
  rw [Nat.cast_pow, Nat.cast_pow, ← zpow_natCast, ← zpow_natCast,
    ← zpow_sub₀ hb']
  congr 1
  omega

/-- Multiples of two fractions compare crosswise. -/
theorem mul_div_le_mul_div_iff {q n s d p u : Nat} (hd : 0 < d) (hu : 0 < u) :
    ((q : ℚ) * (s / d) ≤ n * (p / u) ↔ q * s * u ≤ n * (d * p))
      ∧ ((n : ℚ) * (p / u) ≤ q * (s / d) ↔ n * (d * p) ≤ q * s * u) := by
  have hd' : (0 : ℚ) < d := by exact_mod_cast hd
  have hu' : (0 : ℚ) < u := by exact_mod_cast hu
  have hcomm : n * (d * p) = n * p * d := by ring
  rw [hcomm, mul_div_assoc', mul_div_assoc', div_le_div_iff₀ hd' hu',
    div_le_div_iff₀ hu' hd']
  norm_cast

theorem lowEnd_eq {m low : Nat} {e : Int} (hlow : lowQuarters m e = low) :
    lowEnd m e = (low : ℚ)
      * ((2 ^ (e - 2).toNat : Nat) / (2 ^ (2 - e).toNat : Nat)) := by
  have hunit := zpow_eq_div (b := 2) (by norm_num) (e - 2)
  rw [neg_sub] at hunit
  rw [lowEnd, hlow, ← hunit]
  rfl

theorem highEnd_eq (m : Nat) (e : Int) :
    highEnd m e
      = ((4 * m + 2 : Nat) : ℚ)
        * ((2 ^ (e - 2).toNat : Nat) / (2 ^ (2 - e).toNat : Nat)) := by
  have hunit := zpow_eq_div (b := 2) (by norm_num) (e - 2)
  rw [neg_sub] at hunit
  rw [highEnd, ← hunit]
  rfl

/-- What the scaled interval holds is a decimal at that place that rounds
to the double. -/
theorem roundsTo_of_holds {m n : Nat} {e place : Int} (hm : 0 < m)
    (h : ((Interval.of m e).scaled place).holds n = true) :
    RoundsTo m e (n * 10 ^ place) := by
  obtain ⟨low, hlow, hlow'⟩ : ∃ low : Nat, lowQuarters m e = low
      ∧ low = 4 * m - (if m = 2 ^ 52 ∧ -1074 < e then 1 else 2) := by
    refine ⟨_, ?_, rfl⟩
    rw [lowQuarters]
    split <;> omega
  have hvalue : (n : ℚ) * 10 ^ place
      = n * ((10 ^ place.toNat : Nat) / (10 ^ (-place).toNat : Nat)) :=
    congrArg _ (zpow_eq_div (b := 10) (by norm_num) place)
  -- crosswise, so that the test on naturals is the one on fractions
  have hcompare := fun q : Nat => mul_div_le_mul_div_iff (q := q) (n := n)
    (s := 2 ^ (e - 2).toNat) (p := 10 ^ place.toNat)
    (Nat.two_pow_pos (2 - e).toNat)
      (Nat.pow_pos (n := (-place).toNat) (by norm_num : 0 < 10))
  have hholds : (if m % 2 == 0 then
        decide (low * 2 ^ (e - 2).toNat * 10 ^ (-place).toNat
            ≤ n * (2 ^ (2 - e).toNat * 10 ^ place.toNat))
          && decide (n * (2 ^ (2 - e).toNat * 10 ^ place.toNat)
            ≤ (4 * m + 2) * 2 ^ (e - 2).toNat * 10 ^ (-place).toNat)
      else
        decide (low * 2 ^ (e - 2).toNat * 10 ^ (-place).toNat
            < n * (2 ^ (2 - e).toNat * 10 ^ place.toNat))
          && decide (n * (2 ^ (2 - e).toNat * 10 ^ place.toNat)
            < (4 * m + 2) * 2 ^ (e - 2).toNat * 10 ^ (-place).toNat))
              = true := by
    rw [hlow']
    exact h
  split at hholds
  · next hclosed =>
    simp only [Bool.and_eq_true, decide_eq_true_eq] at hholds
    rw [hvalue]
    refine ⟨?_, ?_, fun hodd => ?_⟩
    · rw [lowEnd_eq hlow]
      exact (hcompare low).1.2 hholds.1
    · rw [highEnd_eq]
      exact (hcompare (4 * m + 2)).2.2 hholds.2
    · rw [beq_iff_eq] at hclosed
      omega
  · simp only [Bool.and_eq_true, decide_eq_true_eq] at hholds
    have habove : lowEnd m e < n * 10 ^ place := by
      rw [lowEnd_eq hlow, hvalue, ← not_le]
      exact (hcompare low).2.not.2 (Nat.not_le.2 hholds.1)
    have hbelow : n * 10 ^ place < highEnd m e := by
      rw [highEnd_eq, hvalue, ← not_le]
      exact (hcompare (4 * m + 2)).1.not.2 (Nat.not_le.2 hholds.2)
    exact ⟨habove.le, hbelow.le, fun _ => ⟨habove, hbelow⟩⟩

/-- The shortest decimal of a double rounds to the double. -/
theorem shortest_roundsTo {m : Nat} {e : Int} (hm : 0 < m) (he : -1074 ≤ e) :
    RoundsTo m e (shortest m e).value := by
  have hlast : (search (Interval.of m e) 634 309).isSome = true :=
    isSome_search (k := 633) (by norm_num) (isSome_atPlace?_last he)
  obtain ⟨s, hs⟩ := Option.isSome_iff_exists.1 hlast
  rw [shortest, hs, Option.getD_some]
  exact roundsTo_of_holds hm (search_eq_some hs)

end GitPersona.Decimal
