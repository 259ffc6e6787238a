/-
How close to one a score comes. Texts with one normal form score one by
every algorithm; any others, unless they are longer than memory, score
at most `nearOne`, which is two units in the last place below one
(`score_le_nearOne`). That gap is what later weighting must not close.
It is the distance alone that comes so close: what the others give texts
that differ is at most `0.96` (`similarity_le_wellBelowOne`).
Scores are then a scale from zero to one whose upper end is for equal
texts only, and on which a query that is the beginning of a text has its
place between one that is merely inside and one that is the whole
(`score_scale`).

# The three scores that are computed

Two of the five scores are constants. Of the others, the share that a
leading query covers is at most one and is weighted to less than that;
the share of characters that are placed is weighted too, but by a
product that may round up, so it is compared with three quarters of the
length, rounded up; and the distance of unequal texts is at least one
character in less than `2 ^ 52`, which a double tells apart from none. A
share is rounded once, so of more characters it is not less
(`ratio_mono`).
-/
import GitPersona.Proofs.Lookup.Abbreviations
import GitPersona.Proofs.Lookup.EditDistance
import GitPersona.Proofs.Number.Quotient
import GitPersona.Proofs.Text.Fold

namespace GitPersona.Lookup

open Number (HasValue IsRounding signed signOf scaled)

variable {q t : List Char} {query target : String}

-- ================================================ statement vocabulary

/-- The bound on scores of texts that differ. -/
def nearOne : Float :=
  0.9999999999999998

/-- The bound on what other algorithms than the distance give texts
that differ. -/
def wellBelowOne : Float :=
  0.96

theorem hasValue_wellBelowOne :
    HasValue wellBelowOne (scaled 8646911284551352 (-53)) :=
  ⟨false, _, _, by decide +kernel, rfl⟩

theorem hasValue_nearOne : HasValue nearOne (1 - 1 / 2 ^ 52) :=
  ⟨false, 9007199254740990, -53, by decide +kernel, by
    norm_num [signed, signOf, scaled]⟩

-- ===================================================== computed scores

/-- A quotient of naturals is rounded once, whatever their size. -/
theorem isRounding_ratio (m : Nat) {n : Nat} (hn : 0 < n) :
    IsRounding (ratio m n) (m / n) := by
  have hrounds : Number.Rounds (.div .binary64 (Number.ofParts .positive m 0)
      (Number.ofParts .positive n 0)) _ := Number.rounds_div hn
  simp only [signed, scaled, zpow_zero, mul_one] at hrounds
  exact ⟨_, rfl, hrounds⟩

/-- A share is a double from zero to one. -/
theorem exists_share {k n : Nat} (hkn : k ≤ n) (hn : 0 < n) :
    ∃ share, HasValue (ratio k n) share ∧ 0 ≤ share ∧ share ≤ 1 := by
  have hshare : (k : ℚ) / n ≤ 1 :=
    div_le_one_of_le₀ (Nat.cast_le.2 hkn) (Nat.cast_nonneg n)
  exact (isRounding_ratio k hn).exists_between Number.hasValue_zero
    Number.hasValue_one
    (by positivity) hshare

/-- Of the same whole, more parts are no smaller share. -/
theorem ratio_mono {k m n : Nat} (hkm : k ≤ m) (hn : 0 < n) :
    ratio k n ≤ ratio m n :=
  (isRounding_ratio k hn).mono (isRounding_ratio m hn)
    (div_le_div_of_nonneg_right (Nat.cast_le.2 hkm) (Nat.cast_nonneg n))

/-- Only one double has the value one. -/
theorem eq_one_of_hasValue {x : Float} (h : HasValue x 1) : x = 1.0 := by
  symm
  apply Number.eq_of_le_of_le (by decide)
  · exact (Number.hasValue_one.le_iff h).2 le_rfl
  · exact (h.le_iff Number.hasValue_one).2 le_rfl

/-- All parts of a whole are one. -/
theorem ratio_self {n : Nat} (hn : 0 < n) : ratio n n = 1.0 := by
  have hrounding := isRounding_ratio n hn
  rw [div_self (Nat.cast_ne_zero.2 hn.ne')] at hrounding
  exact eq_one_of_hasValue (hrounding.hasValue Number.hasValue_one)

theorem hasValue_leadingBase : HasValue 0.6 (scaled 5404319552844595 (-53)) :=
  ⟨false, _, _, by decide +kernel, rfl⟩

/-- What a share adds to the score of a leading query. -/
theorem exists_weightedShare {k m n : Nat} (hkm : k ≤ m) (hmn : m ≤ n)
    (hn : 0 < n) :
    ∃ part part', HasValue (0.35 * ratio k n) part
      ∧ HasValue (0.35 * ratio m n) part'
      ∧ 0 ≤ part ∧ part ≤ part' ∧ part' ≤ scaled 6305039478318694 (-54) := by
  have hweight : HasValue 0.35 (scaled 6305039478318694 (-54)) :=
    ⟨false, _, _, by decide +kernel, rfl⟩
  have hpositive := Number.scaled_nonneg 6305039478318694 (-54)
  obtain ⟨share, hratio, hlow, -⟩ := exists_share (hkm.trans hmn) hn
  obtain ⟨share', hratio', hlow', hhigh⟩ := exists_share hmn hn
  have hshares : share ≤ share' :=
    (hratio.le_iff hratio').1 (ratio_mono hkm hn)
  have hproducts := mul_le_mul_of_nonneg_left hshares hpositive
  have hlimit := mul_le_of_le_one_right hpositive hhigh
  obtain ⟨part, hpart, hnonneg, -⟩ :=
    (Number.isRounding_mul hweight hratio).exists_between
    Number.hasValue_zero hweight (mul_nonneg hpositive hlow)
      (hproducts.trans hlimit)
  obtain ⟨part', hpart', -, hbound⟩ :=
    (Number.isRounding_mul hweight hratio').exists_between
    Number.hasValue_zero hweight (mul_nonneg hpositive hlow') hlimit
  have hparts : 0.35 * ratio k n ≤ 0.35 * ratio m n :=
    (Number.isRounding_mul hweight hratio).mono
      (Number.isRounding_mul hweight hratio') hproducts
  exact ⟨part, part', hpart, hpart', hnonneg, (hpart.le_iff hpart').1 hparts,
    hbound⟩

/-- A score for a beginning is at least `0.6`, and below one by more
than rounding. -/
theorem leading_bounds {m n : Nat} (hmn : m ≤ n) (hn : 0 < n) :
    0.6 ≤ 0.6 + 0.35 * ratio m n ∧ 0.6 + 0.35 * ratio m n ≤ wellBelowOne := by
  obtain ⟨part, _, hproduct, -, hlow, hparts, hlimit⟩ :=
    exists_weightedShare le_rfl hmn hn
  have hsum := Number.isRounding_add hasValue_leadingBase hproduct
  constructor
  · exact hsum.ge_of_ge hasValue_leadingBase (le_add_of_nonneg_right hlow)
  · refine hsum.le_of_le hasValue_wellBelowOne ?_
    have hpart := hparts.trans hlimit
    norm_num [scaled] at hpart ⊢
    linarith

/-- A leading query that covers more scores no less. -/
theorem leading_mono {k m n : Nat} (hkm : k ≤ m) (hmn : m ≤ n) (hn : 0 < n) :
    0.6 + 0.35 * ratio k n ≤ 0.6 + 0.35 * ratio m n := by
  obtain ⟨part, part', hproduct, hproduct', -, hparts, -⟩ :=
    exists_weightedShare hkm hmn hn
  exact (Number.isRounding_add hasValue_leadingBase hproduct).mono
    (Number.isRounding_add hasValue_leadingBase hproduct')
      (add_le_add_right hparts _)

/-- As long as there is an edit to make, the score by edits is below one by
more than rounding. -/
theorem levenshtein_le {d n : Nat} (hd : 0 < d) (hdn : d ≤ n)
    (hlt : n < 2 ^ 52) :
    1.0 - ratio d n ≤ nearOne := by
  have hstep : HasValue 2.220446049250313e-16 (1 / 2 ^ 52) :=
    ⟨false, 4503599627370496, -104, by decide +kernel, by
      norm_num [signed, signOf, scaled]⟩
  have hlength : (0 : ℚ) < n := Nat.cast_pos.2 (by omega)
  have hleast : 1 / 2 ^ 52 ≤ (d : ℚ) / n := by
    have hone : (1 : ℚ) ≤ d := Nat.one_le_cast.2 hd
    have hbound : (n : ℚ) ≤ 2 ^ 52 := by exact_mod_cast hlt.le
    exact div_le_div₀ (by positivity) hone hlength hbound
  obtain ⟨share, hratio, -⟩ := exists_share hdn (by omega)
  have hlow := (hstep.le_iff hratio).1
    ((isRounding_ratio d (by omega)).ge_of_ge hstep hleast)
  refine (Number.isRounding_sub Number.hasValue_one hratio).le_of_le
    hasValue_nearOne ?_
  linarith

/-- Texts of which a smaller share has to be edited score no less. -/
theorem levenshtein_le_levenshtein {k m n n' : Nat} (hkn : k ≤ n)
    (hmn : m ≤ n') (hn : 0 < n)
    (hn' : 0 < n') (hshare : (k : ℚ) / n ≤ m / n') :
    1.0 - ratio m n' ≤ 1.0 - ratio k n := by
  obtain ⟨share, hratio, -⟩ := exists_share hkn hn
  obtain ⟨share', hratio', -⟩ := exists_share hmn hn'
  have hratios := (isRounding_ratio k hn).mono (isRounding_ratio m hn') hshare
  have hshares : share ≤ share' := (hratio.le_iff hratio').1 hratios
  exact (Number.isRounding_sub Number.hasValue_one hratio').mono
    (Number.isRounding_sub Number.hasValue_one hratio)
      (sub_le_sub_left hshares 1)

/-- Texts that are nearer score no less. -/
theorem levenshtein_mono {k m n : Nat} (hkm : k ≤ m) (hmn : m ≤ n)
    (hn : 0 < n) :
    1.0 - ratio m n ≤ 1.0 - ratio k n :=
  levenshtein_le_levenshtein (hkm.trans hmn) hmn hn hn
    (div_le_div_of_nonneg_right (Nat.cast_le.2 hkm) (Nat.cast_nonneg n))

/-- All but one of few characters are a share that a double tells
apart from one. -/
theorem share_of_pred_le {n : Nat} (hn : 0 < n) (hlt : n < 2 ^ 52) :
    ((n : ℚ) - 1) / n ≤ 1 - 1 / 2 ^ 52 := by
  have hlength : (0 : ℚ) < n := Nat.cast_pos.2 hn
  have hbound : (n : ℚ) ≤ 2 ^ 52 := by exact_mod_cast hlt.le
  have hstep := one_div_le_one_div_of_le hlength hbound
  rw [sub_div, div_self hlength.ne']
  linarith

/-- The score by subsequence is below one by more than rounding. -/
theorem subsequence_le {k n : Nat} (hkn : k ≤ n) (hn : 0 < n)
    (hlt : n < 2 ^ 52) :
    0.7 * Float.ofNat k / Float.ofNat n ≤ wellBelowOne := by
  have hsmall : ∀ n < 4, ∀ k ≤ n, 0 < n →
      0.7 * Float.ofNat k / Float.ofNat n ≤ wellBelowOne := by
    decide +kernel
  by_cases hfew : n < 4
  · exact hsmall n hfew k hkn hn
  · have hweight : HasValue 0.7 (scaled 6305039478318694 (-53)) :=
      ⟨false, _, _, by decide +kernel, rfl⟩
    have hpositive := Number.scaled_nonneg 6305039478318694 (-53)
    have hlength : (4 : ℚ) ≤ n := by exact_mod_cast Nat.not_lt.1 hfew
    have hcount : (k : ℚ) ≤ n := Nat.cast_le.2 hkn
    -- three quarters of the length, rounded up, bound the product before the
    -- division
    obtain ⟨most, hmost⟩ : ∃ most, most = (3 * n + 3) / 4 := ⟨_, rfl⟩
    have hatLeast : (3 : ℚ) * n ≤ 4 * most := by
      have hwhole : 3 * n ≤ 4 * most := by omega
      exact_mod_cast hwhole
    have hatMost : (4 : ℚ) * most ≤ 3 * n + 3 := by
      have hwhole : 4 * most ≤ 3 * n + 3 := by omega
      exact_mod_cast hwhole
    have hpart : scaled 6305039478318694 (-53) * k ≤ most := by
      norm_num [scaled]
      linarith
    obtain ⟨part, hproduct, -, hhigh⟩ :=
      (Number.isRounding_mul hweight
        (Number.hasValue_ofNat (n := k) (by omega))).exists_between
        Number.hasValue_zero (Number.hasValue_ofNat (n := most) (by omega))
        (mul_nonneg hpositive (Nat.cast_nonneg k)) hpart
    have hquotient := Number.isRounding_div hproduct
        (Number.hasValue_ofNat (n := n) (by omega))
      (by linarith)
    refine hquotient.le_of_le hasValue_wellBelowOne ?_
    rw [div_le_iff₀ (by linarith)]
    norm_num [scaled]
    linarith

-- ========================================================== beginnings

/-- A beginning of a text occurs in it. -/
theorem occursIn_of_beginning (h : q <+: t) : occursIn q t = true := by
  cases t with
  | nil => simpa [occursIn] using h
  | cons d t => simp [occursIn, h]

/-- A beginning scores `0.6` and a share of `0.35` for its length. -/
theorem similarity_leading (h : q <+: t) :
    similarity q t .leading = 0.6 + 0.35 * ratio q.length t.length :=
  if_pos (List.isPrefixOf_iff_prefix.2 h)

/-- A beginning scores `0.5` as a part. -/
theorem similarity_substring (h : q <+: t) : similarity q t .substring = 0.5 :=
  if_pos (occursIn_of_beginning h)

-- ======================================================= unequal texts

/-- Only the distance gives texts that differ more than the lower bound. -/
theorem similarity_le_wellBelowOne (hq : q ≠ []) (hqlt : q.length < 2 ^ 52)
    {a : Algorithm}
    (ha : a ≠ .levenshtein) : similarity q t a ≤ wellBelowOne := by
  have hzero : (0.0 : Float) ≤ wellBelowOne := by decide
  have hlength : 0 < q.length := List.length_pos_of_ne_nil hq
  cases a with
  | exact => exact hzero
  | leading =>
      show (if q.isPrefixOf t then 0.6 + 0.35 * ratio q.length t.length
          else 0.0) ≤ wellBelowOne
      split
      · next hleading =>
        have hshorter := (List.isPrefixOf_iff_prefix.1 hleading).length_le
        exact (leading_bounds hshorter (by omega)).2
      · exact hzero
  | substring =>
      show (if occursIn q t then 0.5 else 0.0) ≤ wellBelowOne
      split
      · decide
      · exact hzero
  | levenshtein => exact absurd rfl ha
  | subsequence => exact subsequence_le (placedCount_le q t) hlength hqlt

/-- No algorithm gives texts that differ more than the bound. -/
theorem similarity_le_nearOne (hne : q ≠ t) (hq : q ≠ [])
    (hqlt : q.length < 2 ^ 52)
    (htlt : t.length < 2 ^ 52) (a : Algorithm) :
    similarity q t a ≤ nearOne := by
  by_cases ha : a = .levenshtein
  · subst ha
    have hlength : 0 < q.length := List.length_pos_of_ne_nil hq
    have hdistance : 0 < editDistance q t :=
      Nat.pos_of_ne_zero (editDistance_eq_zero_iff.not.2 hne)
    exact levenshtein_le hdistance (editDistance_le q t) (by omega)
  · exact Number.le_trans (similarity_le_wellBelowOne hq hqlt ha) (by decide)

-- =============================================================== scores

/-- Texts that are the same once normalized score one by every algorithm. -/
theorem score_of_normalize_eq
    (h : Text.normalize query = Text.normalize target) (a : Algorithm) :
    score a query target = 1.0 :=
  if_pos h

/-- Other texts score what the algorithm says of them, cut to a score. -/
theorem score_of_normalize_ne (hquery : Text.normalize query ≠ [])
    (htarget : Text.normalize target ≠ [])
    (hne : Text.normalize query ≠ Text.normalize target) (a : Algorithm) :
    score a query target = clamp
      (similarity (Text.normalize query) (Text.normalize target) a) := by
  unfold score scoreNormalized
  rw [if_neg hne, if_neg (not_or.2 ⟨hquery, htarget⟩)]

/-- Every score is between zero and one. -/
theorem score_bounds (a : Algorithm) (query target : String) :
    0.0 ≤ score a query target ∧ score a query target ≤ 1.0 := by
  have hunit : (0.0 : Float) ≤ 0.0 ∧ (0.0 : Float) ≤ 1.0
      ∧ (1.0 : Float) ≤ 1.0 := by decide
  unfold score scoreNormalized
  split
  · exact hunit.2
  · split
    · exact ⟨hunit.1, hunit.2.1⟩
    · exact Number.clamp_spec _

/-- Texts of different normal forms score at most the bound, unless they
are very long. -/
theorem score_le_nearOne (hne : Text.normalize query ≠ Text.normalize target)
    (hquery : query.length < 2 ^ 50) (htarget : target.length < 2 ^ 50)
    (a : Algorithm) :
    score a query target ≤ nearOne := by
  have hqlt := Text.length_normalize_le query
  have htlt := Text.length_normalize_le target
  unfold score scoreNormalized
  rw [if_neg hne]
  split
  · decide
  · next hsome =>
    rw [not_or] at hsome
    have hsimilarity :=
      similarity_le_nearOne hne hsome.1 (by omega) (by omega) a
    have hkept : clamp nearOne = nearOne := by decide
    rw [← hkept]
    exact Number.clamp_le_clamp hsimilarity

/-- Only texts that are the same once normalized score one. -/
theorem score_eq_one_iff (hquery : query.length < 2 ^ 50)
    (htarget : target.length < 2 ^ 50)
    (a : Algorithm) :
    score a query target = 1.0
      ↔ Text.normalize query = Text.normalize target := by
  constructor
  · intro hone
    by_contra hne
    have hless := score_le_nearOne hne hquery htarget a
    rw [hone] at hless
    exact absurd hless (by decide)
  · intro h
    exact score_of_normalize_eq h a

/-- A query that is the beginning of a text scores more by that than by being
inside, and less than the whole text does. -/
theorem score_leading_between (hquery : Text.normalize query ≠ [])
    (hbeginning : Text.normalize query <+: Text.normalize target)
    (hne : Text.normalize query ≠ Text.normalize target) :
    score .substring query target < score .leading query target
      ∧ score .leading query target < 1.0 := by
  have htarget := hbeginning.ne_nil hquery
  have hlength := List.length_pos_of_ne_nil htarget
  obtain ⟨hlow, hhigh⟩ := leading_bounds hbeginning.length_le hlength
  rw [score_of_normalize_ne hquery htarget hne,
    score_of_normalize_ne hquery htarget hne, similarity_leading hbeginning,
    similarity_substring hbeginning]
  have hkept : clamp 0.5 < clamp 0.6 ∧ clamp wellBelowOne < 1.0 := by decide
  exact ⟨Number.lt_of_lt_of_le hkept.1 (Number.clamp_le_clamp hlow),
    Number.lt_of_le_of_lt (Number.clamp_le_clamp hhigh) hkept.2⟩

/-- Scores go from zero to one, one is for texts of the same normal form, and a
proper beginning is between a mere part and the whole. -/
theorem score_scale :
    (∀ (a : Algorithm) (query target : String), query.length < 2 ^ 50 →
      target.length < 2 ^ 50 →
      0.0 ≤ score a query target ∧ score a query target ≤ 1.0
        ∧ (score a query target = 1.0
          ↔ Text.normalize query = Text.normalize target))
    ∧ ∀ query target : String, Text.normalize query ≠ [] →
      Text.normalize query <+: Text.normalize target →
      Text.normalize query ≠ Text.normalize target →
      score .substring query target < score .leading query target
        ∧ score .leading query target < 1.0 := by
  constructor
  · intro a query target hquery htarget
    obtain ⟨hlow, hhigh⟩ := score_bounds a query target
    exact ⟨hlow, hhigh, score_eq_one_iff hquery htarget a⟩
  · intro query target hquery hbeginning hne
    exact score_leading_between hquery hbeginning hne

/-- The scale on a few words. -/
theorem score_scale_work :
    score .subsequence " Work" "WORK" = 1.0
      ∧ score .levenshtein "work" "works" ≠ 1.0
      ∧ score .substring "work" "work-laptop"
        < score .leading "work" "work-laptop"
      ∧ score .leading "work" "work-laptop" < 1.0 := by
  have hequal := score_scale.1 .subsequence " Work" "WORK" (by decide)
    (by decide)
  have hlonger := score_scale.1 .levenshtein "work" "works" (by decide)
    (by decide)
  have hbeginning :=
    score_scale.2 "work" "work-laptop" (by decide +kernel) (by decide +kernel)
    (by decide +kernel)
  refine ⟨hequal.2.2.2 (by decide +kernel), ?_, hbeginning⟩
  intro hone
  exact absurd (hlonger.2.2.1 hone) (by decide +kernel)

end GitPersona.Lookup
