/-
What a profile scores, field by field. A field has the greatest score
that any algorithm gives its value, if that is positive
(`scoreField_spec`), and a profile the greatest weighted score of its
fields (`scoreProfile_spec`): weights go up to one, so that the cut at
one cuts nothing.

# Two marks

Weights decide which fields can reach a mark. Beyond `0.8` only the name
counts, by what an algorithm gives it (`reaches_by_name_iff`), and it
brings a score of one exactly when it has the normal form of the query
(`reaches_one_iff`). The user's name brings a score of `0.8` at
best, and only by the same equality: a score below one falls short of
the mark even though the product is rounded (`weightedScore_userName_lt`).
No other field comes that far (`reaches_mark_iff`).
-/
import GitPersona.Lookup.Matcher
import GitPersona.Proofs.Lookup.Scores

namespace GitPersona.Lookup

open Number (FirstGreatest HasValue IsNumber line)

variable {m : Matcher} {query value : String} {p : Profile}
    {algorithms : List Algorithm}
  {f : Field} {fm : FieldMatch} {r : Match}

-- ================================================ statement vocabulary

/-- What brings a profile to a score of `0.8`: a name that scores as much, or a
user's name that is the query. -/
def Matcher.Decides (m : Matcher) (query : String) (p : Profile) : Prop :=
  (m.settings.matchName = true
      ∧ ∃ fm, scoreField m.algorithms query p.name .name = some fm
        ∧ 0.8 ≤ fm.score)
    ∨ m.settings.matchUserName = true
      ∧ ∃ user, p.userName = some user
        ∧ Text.normalize user = Text.normalize query

-- ============================================================== fields

/-- Every score is a number. -/
theorem isNumber_score (a : Algorithm) (query value : String) :
    IsNumber (score a query value) :=
  (Number.isNumber_of_le (score_bounds a query value).2).1

/-- The best algorithm is the first that gives the greatest score, which
is positive. -/
theorem firstGreatest_of_bestAlgorithm {a : Algorithm} {best : Float}
    (h : bestAlgorithm algorithms query value = some (a, best)) :
    best = score a query value ∧ 0.0 < best
      ∧ FirstGreatest (fun b => line (score b query value)) algorithms a := by
  have hnumber : ∀ x
      ∈ (algorithms.map fun a => (a, score a query value)).filter (·.2 > 0.0),
      IsNumber x.2 := by
    intro x hx
    obtain ⟨b, -, rfl⟩ := List.mem_map.1 (List.mem_of_mem_filter hx)
    exact isNumber_score b query value
  have hfirst := Number.firstGreatest_of_firstMax
    (fun x : Algorithm × Float => line x.2)
    (fun x _ y hy => decide_eq_true_iff.trans (hnumber y hy).lt_iff) h
  have hpositive : 0.0 < best :=
    of_decide_eq_true (List.mem_filter.1 hfirst.mem).2
  -- what scores nothing is below the best, so it may come back
  have hall := hfirst.of_filter fun x hx hzero => by
    obtain ⟨b, -, rfl⟩ := List.mem_map.1 hx
    have hnot : ¬0.0 < score b query value := of_decide_eq_false hzero
    have hleast := (Number.isNumber_of_le (score_bounds b query value).1).1
    have hnone := Number.le_of_not_lt hleast (isNumber_score b query value)
      hnot
    exact (isNumber_score b query value).lt_iff.1
      (Number.lt_of_le_of_lt hnone hpositive)
  obtain ⟨b, hb, hgreatest⟩ := hall.exists_of_map
  cases hb
  exact ⟨rfl, hpositive, hgreatest⟩

/-- The best algorithm is one of the list, with a positive score that no other
one exceeds. -/
theorem bestAlgorithm_spec {a : Algorithm} {best : Float}
    (h : bestAlgorithm algorithms query value = some (a, best)) :
    a ∈ algorithms ∧ best = score a query value ∧ 0.0 < best
      ∧ ∀ b ∈ algorithms, score b query value ≤ best := by
  obtain ⟨hscore, hpositive, hfirst⟩ := firstGreatest_of_bestAlgorithm h
  refine ⟨hfirst.mem, hscore, hpositive, fun b hb => ?_⟩
  rw [hscore]
  exact (isNumber_score b query value).le_iff.2 (hfirst.le hb)

/-- A field has the greatest score of the algorithms, and a positive one. -/
theorem scoreField_spec (h : scoreField algorithms query value f = some fm) :
    fm.field = f ∧ (∃ a ∈ algorithms, fm.score = score a query value)
      ∧ 0.0 < fm.score
      ∧ ∀ a ∈ algorithms, score a query value ≤ fm.score := by
  obtain ⟨⟨a, best⟩, hbest, rfl⟩ := Option.map_eq_some_iff.1 h
  obtain ⟨ha, hscore, hpositive, htop⟩ := bestAlgorithm_spec hbest
  exact ⟨rfl, ⟨a, ha, hscore⟩, hpositive, htop⟩

/-- A field matches as soon as some algorithm gives it a positive score. -/
theorem exists_scoreField {a : Algorithm} (ha : a ∈ algorithms)
    (hpositive : 0.0 < score a query value) (f : Field) :
    ∃ fm, scoreField algorithms query value f = some fm := by
  cases hbest : bestAlgorithm algorithms query value with
  | some best => exact ⟨_, congrArg _ hbest⟩
  | none =>
      unfold bestAlgorithm at hbest
      rw [Number.firstMax_eq_none_iff, List.filter_eq_nil_iff] at hbest
      have hnot := hbest (a, score a query value) (List.mem_map.2 ⟨a, ha, rfl⟩)
      exact absurd (decide_eq_true hpositive) hnot

/-- No field scores more than one. -/
theorem score_le_one_of_scoreField
    (h : scoreField algorithms query value f = some fm) :
    fm.score ≤ 1.0 := by
  obtain ⟨-, ⟨a, -, hscore⟩, -⟩ := scoreField_spec h
  rw [hscore]
  exact (score_bounds a query value).2

/-- A value with the normal form of the query scores one, whatever the
algorithms are. -/
theorem scoreField_of_normalize_eq (halgorithms : algorithms ≠ [])
    (h : Text.normalize value = Text.normalize query) (f : Field) :
    ∃ fm, scoreField algorithms query value f = some fm ∧ fm.score = 1.0 := by
  obtain ⟨a, ha⟩ := List.exists_mem_of_ne_nil algorithms halgorithms
  have hone := score_of_normalize_eq h.symm a
  have hunit : (0.0 : Float) < 1.0 := by decide
  have hpositive : 0.0 < score a query value := hone ▸ hunit
  obtain ⟨fm, hfm⟩ := exists_scoreField ha hpositive f
  obtain ⟨-, -, hscored, htop⟩ := scoreField_spec hfm
  refine ⟨fm, hfm, ?_⟩
  apply Number.eq_of_le_of_le hscored (score_le_one_of_scoreField hfm)
  rw [← hone]
  exact htop a ha

/-- A value other than the query scores less than one by more than rounding. -/
theorem scoreField_le_nearOne
    (h : scoreField algorithms query value f = some fm)
    (hne : Text.normalize query ≠ Text.normalize value)
    (hquery : query.length < 2 ^ 50)
    (hvalue : value.length < 2 ^ 50) : fm.score ≤ nearOne := by
  obtain ⟨-, ⟨a, -, hscore⟩, -⟩ := scoreField_spec h
  rw [hscore]
  exact score_le_nearOne hne hquery hvalue a

/-- A value that scores is not blank, unless the query is. -/
theorem normalize_ne_nil_of_scoreField
    (h : scoreField algorithms query value f = some fm)
    (hquery : Text.normalize query ≠ []) : Text.normalize value ≠ [] := by
  intro hblank
  obtain ⟨-, ⟨a, -, hscore⟩, hpositive, -⟩ := scoreField_spec h
  have hzero : score a query value = 0.0 := by
    unfold score scoreNormalized
    rw [hblank, if_neg hquery, if_pos (Or.inr rfl)]
  rw [hscore, hzero] at hpositive
  exact absurd hpositive (by decide)

theorem ne_empty_of_normalize_ne_nil (h : Text.normalize value ≠ []) :
    value ≠ "" := by
  rintro rfl
  exact h rfl

-- ============================================================= weights

/-- No field weighs more than one, none but the name more than `0.8`, and none
but names `0.8`. -/
theorem weight_bounds (f : Field) :
    f.weight ≤ 1.0 ∧ (f ≠ .name → f.weight ≤ 0.8)
    ∧ (f ≠ .name → f ≠ .userName → f.weight < 0.8) := by
  cases f <;> decide

/-- A weight has a value, which is not negative. -/
theorem hasValue_weight (f : Field) : ∃ w, HasValue f.weight w ∧ 0 ≤ w := by
  have hlow : ∀ f : Field, 0.0 ≤ f.weight := by
    intro f
    cases f <;> decide
  obtain ⟨w, hw, hpositive, -⟩ :=
    Number.exists_hasValue_between Number.hasValue_zero
    Number.hasValue_one (hlow f) (weight_bounds f).1
  exact ⟨w, hw, hpositive⟩

/-- Weighted, a score is at most the weight of its field. -/
theorem weightedScore_le_weight (hlow : 0.0 ≤ fm.score)
    (hhigh : fm.score ≤ 1.0) :
    fm.weightedScore ≤ fm.field.weight := by
  obtain ⟨s, hs, hlow', hhigh'⟩ :=
    Number.exists_hasValue_between Number.hasValue_zero
    Number.hasValue_one hlow hhigh
  obtain ⟨w, hw, hpositive⟩ := hasValue_weight fm.field
  exact (Number.isRounding_mul hs hw).le_of_le hw
    (mul_le_of_le_one_left hpositive hhigh')

/-- Of a greater score of one field the weighted score is no less. -/
theorem weightedScore_mono {fm fm' : FieldMatch}
    (hfield : fm.field = fm'.field)
    (hlow : 0.0 ≤ fm.score) (hle : fm.score ≤ fm'.score)
    (hhigh : fm'.score ≤ 1.0) :
    fm.weightedScore ≤ fm'.weightedScore := by
  obtain ⟨s, hs, -⟩ := Number.exists_hasValue_between Number.hasValue_zero
    Number.hasValue_one hlow (Number.le_trans hle hhigh)
  obtain ⟨s', hs', -⟩ := Number.exists_hasValue_between Number.hasValue_zero
    Number.hasValue_one (Number.le_trans hlow hle) hhigh
  obtain ⟨w, hw, hpositive⟩ := hasValue_weight fm'.field
  unfold FieldMatch.weightedScore
  rw [hfield]
  exact (Number.isRounding_mul hs hw).mono (Number.isRounding_mul hs' hw)
    (mul_le_mul_of_nonneg_right ((hs.le_iff hs').1 hle) hpositive)

/-- The weight of the name leaves its score as it is. -/
theorem weightedScore_name (hfield : fm.field = .name)
    (hpositive : 0.0 < fm.score)
    (hhigh : fm.score ≤ 1.0) : fm.weightedScore = fm.score := by
  obtain ⟨s, hs, -⟩ := Number.exists_hasValue_between Number.hasValue_zero
    Number.hasValue_one (Number.le_of_lt hpositive) hhigh
  have hproduct := Number.isRounding_mul hs Number.hasValue_one
  rw [mul_one] at hproduct
  have hweighted : fm.weightedScore = fm.score * 1.0 := by
    rw [FieldMatch.weightedScore, hfield]
    rfl
  rw [hweighted]
  exact (Number.eq_of_le_of_le hpositive (hproduct.ge_of_ge hs le_rfl)
    (hproduct.le_of_le hs le_rfl)).symm

/-- A user's name that is not the query falls short of the mark. -/
theorem weightedScore_userName_lt (hfield : fm.field = .userName)
    (hlow : 0.0 ≤ fm.score)
    (hhigh : fm.score ≤ nearOne) : fm.weightedScore < 0.8 := by
  have hweight : HasValue 0.8 (Number.scaled 7205759403792794 (-53)) :=
    ⟨false, _, _, by decide +kernel, rfl⟩
  have hbelow : HasValue 0.7999999999999999
      (Number.scaled 7205759403792793 (-53)) :=
    ⟨false, _, _, by decide +kernel, rfl⟩
  obtain ⟨s, hs, -, hhigh'⟩ :=
    Number.exists_hasValue_between Number.hasValue_zero
    hasValue_nearOne hlow hhigh
  have hproduct : fm.score * 0.8 ≤ 0.7999999999999999 := by
    refine (Number.isRounding_mul hs hweight).le_of_le hbelow ?_
    norm_num [Number.scaled] at hhigh' ⊢
    linarith
  have hweighted : fm.weightedScore = fm.score * 0.8 := by
    rw [FieldMatch.weightedScore, hfield]
    rfl
  rw [hweighted]
  exact Number.lt_of_le_of_lt hproduct (by decide)

-- ============================================================ profiles

/-- The field matches of a profile are those of fields that are searched and
hold something. -/
theorem mem_fieldMatches_iff : fm ∈ m.fieldMatches query p
    ↔ fm.field.isOn m.settings = true
      ∧ ∃ value, fm.field.valueOf p = some value ∧ value ≠ ""
      ∧ scoreField m.algorithms query value fm.field = some fm := by
  have hall : ∀ f : Field, f ∈ Field.all := by
    intro f
    cases f <;> decide
  unfold Matcher.fieldMatches Matcher.fields
  simp only [List.mem_filterMap, List.mem_filter, hall, true_and]
  constructor
  · rintro ⟨f, hon, hscored⟩
    split at hscored
    · next value hvalue =>
      split at hscored
      · cases hscored
      · next hne =>
        obtain rfl := (scoreField_spec hscored).1
        exact ⟨hon, value, hvalue, hne, hscored⟩
    · cases hscored
  · rintro ⟨hon, value, hvalue, hne, hscored⟩
    refine ⟨fm.field, hon, ?_⟩
    rw [hvalue]
    exact (if_neg hne).trans hscored

/-- A field that matches has a positive score of at most one. -/
theorem score_of_mem_fieldMatches (h : fm ∈ m.fieldMatches query p) :
    0.0 < fm.score ∧ fm.score ≤ 1.0 := by
  obtain ⟨-, value, -, -, hscored⟩ := mem_fieldMatches_iff.1 h
  exact ⟨(scoreField_spec hscored).2.2.1, score_le_one_of_scoreField hscored⟩

/-- The weighted score of a field that matches is at most its weight. -/
theorem weightedScore_le_of_mem (h : fm ∈ m.fieldMatches query p) :
    fm.weightedScore ≤ fm.field.weight := by
  obtain ⟨hpositive, hhigh⟩ := score_of_mem_fieldMatches h
  exact weightedScore_le_weight (Number.le_of_lt hpositive) hhigh

/-- The weighted score of a field that matches is a number. -/
theorem isNumber_weightedScore (h : fm ∈ m.fieldMatches query p) :
    IsNumber fm.weightedScore :=
  (Number.isNumber_of_le (weightedScore_le_of_mem h)).1

/-- The primary field is the first that has the greatest weighted score. -/
theorem firstMax_fieldMatches_iff {primary : FieldMatch} :
    firstMax FieldMatch.exceeds (m.fieldMatches query p) = some primary
      ↔ FirstGreatest (fun fm => line fm.weightedScore)
        (m.fieldMatches query p) primary :=
  Number.firstMax_eq_some_iff (fun fm : FieldMatch => line fm.weightedScore)
    fun _ _ _ hb => decide_eq_true_iff.trans (isNumber_weightedScore hb).lt_iff

/-- A profile has the weighted score and the algorithm of its primary field.
The cut at one cuts nothing. -/
theorem scoreProfile_eq_some_iff : m.scoreProfile query p = some r
    ↔ ∃ primary, FirstGreatest (fun fm => line fm.weightedScore)
      (m.fieldMatches query p) primary
      ∧ r =
        { profile := p
          score := primary.weightedScore
          algorithm := primary.algorithm
          fieldMatches := m.fieldMatches query p } := by
  have hkept : ∀ fm ∈ m.fieldMatches query p,
      min fm.weightedScore 1.0 = fm.weightedScore :=
    fun fm hfm => if_pos
      (Number.le_trans (weightedScore_le_of_mem hfm) (weight_bounds _).1)
  unfold Matcher.scoreProfile
  simp only [Option.map_eq_some_iff, firstMax_fieldMatches_iff]
  constructor
  · intro h
    obtain ⟨primary, hprimary, rfl⟩ := h
    exact ⟨primary, hprimary, by rw [hkept primary hprimary.mem]⟩
  · intro h
    obtain ⟨primary, hprimary, rfl⟩ := h
    exact ⟨primary, hprimary, by rw [hkept primary hprimary.mem]⟩

/-- A profile is not matched exactly when none of its fields is. -/
theorem scoreProfile_eq_none_iff :
    m.scoreProfile query p = none ↔ m.fieldMatches query p = [] := by
  unfold Matcher.scoreProfile
  rw [Option.map_eq_none_iff, Number.firstMax_eq_none_iff]

/-- A profile has the greatest weighted score of its fields. -/
theorem scoreProfile_spec (h : m.scoreProfile query p = some r) :
    r.profile = p ∧ (∃ fm ∈ m.fieldMatches query p, r.score = fm.weightedScore)
      ∧ ∀ fm ∈ m.fieldMatches query p, fm.weightedScore ≤ r.score := by
  obtain ⟨primary, hprimary, rfl⟩ := scoreProfile_eq_some_iff.1 h
  refine ⟨rfl, ⟨primary, hprimary.mem, rfl⟩, fun fm hfm => ?_⟩
  exact (isNumber_weightedScore hfm).le_iff.2 (hprimary.le hfm)

/-- The score of a match is a number. -/
theorem isNumber_scoreProfile (h : m.scoreProfile query p = some r) :
    IsNumber r.score := by
  obtain ⟨-, ⟨fm, hfm, hscore⟩, -⟩ := scoreProfile_spec h
  rw [hscore]
  exact isNumber_weightedScore hfm

/-- No match scores more than one. -/
theorem scoreProfile_le_one (h : m.scoreProfile query p = some r) :
    r.score ≤ 1.0 := by
  obtain ⟨-, ⟨fm, hfm, hscore⟩, -⟩ := scoreProfile_spec h
  rw [hscore]
  exact Number.le_trans (weightedScore_le_of_mem hfm) (weight_bounds _).1

/-- A profile scores as much as a mark exactly when one of its fields does. -/
theorem exists_scoreProfile_iff {mark : Float} :
    (∃ r, m.scoreProfile query p = some r ∧ mark ≤ r.score)
      ↔ ∃ fm ∈ m.fieldMatches query p, mark ≤ fm.weightedScore := by
  constructor
  · rintro ⟨r, hr, hmark⟩
    obtain ⟨-, ⟨fm, hfm, hscore⟩, -⟩ := scoreProfile_spec hr
    exact ⟨fm, hfm, hscore ▸ hmark⟩
  · rintro ⟨fm, hfm, hmark⟩
    cases hr : m.scoreProfile query p with
    | some r =>
        obtain ⟨-, -, htop⟩ := scoreProfile_spec hr
        exact ⟨r, rfl, Number.le_trans hmark (htop fm hfm)⟩
    | none =>
        rw [scoreProfile_eq_none_iff.1 hr] at hfm
        cases hfm

-- =========================================================== the marks

/-- A field whose value has the normal form of the query is among those of the
profile, with the score one. -/
theorem exists_mem_fieldMatches (halgorithms : m.algorithms ≠ [])
    (hquery : Text.normalize query ≠ []) (hon : f.isOn m.settings = true)
    (hvalue : f.valueOf p = some value)
    (h : Text.normalize value = Text.normalize query) :
    ∃ fm ∈ m.fieldMatches query p, fm.field = f ∧ fm.score = 1.0 := by
  obtain ⟨fm, hscored, hone⟩ := scoreField_of_normalize_eq halgorithms h f
  obtain rfl := (scoreField_spec hscored).1
  have hne : value ≠ "" := ne_empty_of_normalize_ne_nil (h ▸ hquery)
  exact ⟨fm, mem_fieldMatches_iff.2 ⟨hon, value, hvalue, hne, hscored⟩, rfl,
    hone⟩

/-- A field reaches a mark when some algorithm does. -/
theorem exists_scoreField_iff {mark : Float} (hmark : 0.0 < mark) :
    (∃ fm, scoreField algorithms query value f = some fm ∧ mark ≤ fm.score)
      ↔ ∃ a ∈ algorithms, mark ≤ score a query value := by
  constructor
  · rintro ⟨fm, hfm, hreached⟩
    obtain ⟨a, ha, hscore⟩ := (scoreField_spec hfm).2.1
    exact ⟨a, ha, hscore ▸ hreached⟩
  · rintro ⟨a, ha, hreached⟩
    obtain ⟨fm, hfm⟩ :=
      exists_scoreField ha (Number.lt_of_lt_of_le hmark hreached) f
    exact ⟨fm, hfm, Number.le_trans hreached
      ((scoreField_spec hfm).2.2.2 a ha)⟩

/-- The name matches when it is searched and some algorithm
gives it a score. -/
theorem mem_fieldMatches_name_iff (hquery : Text.normalize query ≠ [])
    (hfield : fm.field = .name) :
    fm ∈ m.fieldMatches query p
      ↔ m.settings.matchName = true
        ∧ scoreField m.algorithms query p.name .name = some fm := by
  rw [mem_fieldMatches_iff, hfield]
  apply and_congr_right
  intro _
  constructor
  · rintro ⟨value, hvalue, -, hscored⟩
    cases hvalue
    exact hscored
  · intro hscored
    have hname := normalize_ne_nil_of_scoreField hscored hquery
    exact ⟨p.name, rfl, ne_empty_of_normalize_ne_nil hname, hscored⟩

/-- The name brings a profile as far as it scores. -/
theorem exists_name_iff (hquery : Text.normalize query ≠ []) {mark : Float} :
    (∃ fm ∈ m.fieldMatches query p, fm.field = .name ∧ mark ≤ fm.weightedScore)
      ↔ m.settings.matchName = true
        ∧ ∃ fm, scoreField m.algorithms query p.name .name = some fm
          ∧ mark ≤ fm.score := by
  have hweighted : ∀ fm ∈ m.fieldMatches query p, fm.field = .name →
      fm.weightedScore = fm.score := by
    intro fm hfm hfield
    obtain ⟨hpositive, hhigh⟩ := score_of_mem_fieldMatches hfm
    exact weightedScore_name hfield hpositive hhigh
  constructor
  · rintro ⟨fm, hfm, hfield, hreached⟩
    rw [hweighted fm hfm hfield] at hreached
    obtain ⟨hon, hscored⟩ := (mem_fieldMatches_name_iff hquery hfield).1 hfm
    exact ⟨hon, fm, hscored, hreached⟩
  · rintro ⟨hon, fm, hscored, hreached⟩
    have hfield := (scoreField_spec hscored).1
    have hfm := (mem_fieldMatches_name_iff hquery hfield).2 ⟨hon, hscored⟩
    rw [← hweighted fm hfm hfield] at hreached
    exact ⟨fm, hfm, hfield, hreached⟩

/-- Beyond the weights of the other fields a profile comes by
its name alone. -/
theorem reaches_by_name_iff {mark : Float} (hmark : 0.8 < mark)
    (hquery : Text.normalize query ≠ []) :
    (∃ r, m.scoreProfile query p = some r ∧ mark ≤ r.score)
      ↔ m.settings.matchName = true ∧ ∃ a ∈ m.algorithms,
        mark ≤ score a query p.name := by
  have hweights : (0.0 : Float) < 0.8 := by decide
  have hpositive : 0.0 < mark :=
    Number.lt_of_lt_of_le hweights (Number.le_of_lt hmark)
  rw [exists_scoreProfile_iff, ← exists_scoreField_iff hpositive,
    ← exists_name_iff hquery]
  constructor
  · rintro ⟨fm, hfm, hreached⟩
    refine ⟨fm, hfm, ?_, hreached⟩
    by_contra hother
    have hless := Number.le_trans (weightedScore_le_of_mem hfm)
      ((weight_bounds _).2.1 hother)
    exact Number.not_le_of_lt (Number.lt_of_le_of_lt hless hmark) hreached
  · rintro ⟨fm, hfm, -, hreached⟩
    exact ⟨fm, hfm, hreached⟩

/-- A profile scores one exactly by its name. -/
theorem reaches_one_iff (halgorithms : m.algorithms ≠ [])
    (hquery : Text.normalize query ≠ [])
    (hlength : query.length < 2 ^ 50) (hname : p.name.length < 2 ^ 50) :
    (∃ r, m.scoreProfile query p = some r ∧ 1.0 ≤ r.score)
      ↔ m.settings.matchName = true ∧ Text.normalize p.name
        = Text.normalize query := by
  rw [reaches_by_name_iff (by decide) hquery]
  constructor
  · intro h
    obtain ⟨hon, a, -, hone⟩ := h
    refine ⟨hon, ?_⟩
    by_contra hne
    have hless := score_le_nearOne (Ne.symm hne) hlength hname a
    exact absurd (Number.le_trans hone hless) (by decide)
  · intro h
    obtain ⟨hon, hsame⟩ := h
    obtain ⟨a, ha⟩ := List.exists_mem_of_ne_nil m.algorithms halgorithms
    refine ⟨hon, a, ha, ?_⟩
    rw [score_of_normalize_eq hsame.symm]
    decide

/-- A profile scores `0.8` exactly by its name, or by a user's name that
is the query. -/
theorem reaches_mark_iff (halgorithms : m.algorithms ≠ [])
    (hquery : Text.normalize query ≠ [])
    (hlength : query.length < 2 ^ 50)
    (huser : ∀ user ∈ p.userName, user.length < 2 ^ 50) :
    (∃ r, m.scoreProfile query p = some r ∧ 0.8 ≤ r.score)
      ↔ m.Decides query p := by
  rw [exists_scoreProfile_iff]
  constructor
  · rintro ⟨fm, hfm, hmark⟩
    by_cases hname : fm.field = .name
    · exact Or.inl ((exists_name_iff hquery).1 ⟨fm, hfm, hname, hmark⟩)
    · by_cases huserName : fm.field = .userName
      · obtain ⟨hon, value, hvalue, -, hscored⟩ := mem_fieldMatches_iff.1 hfm
        have hpositive := (score_of_mem_fieldMatches hfm).1
        rw [huserName] at hon hvalue
        refine Or.inr ⟨hon, value, hvalue, ?_⟩
        by_contra hne
        have hless := scoreField_le_nearOne hscored (Ne.symm hne) hlength
          (huser value hvalue)
        have hshort := weightedScore_userName_lt huserName
          (Number.le_of_lt hpositive) hless
        exact Number.not_le_of_lt hshort hmark
      · -- the weights of all other fields are below the mark
        have hless := Number.lt_of_le_of_lt (weightedScore_le_of_mem hfm)
          ((weight_bounds _).2.2 hname huserName)
        exact absurd hmark (Number.not_le_of_lt hless)
  · rintro (hname | ⟨hon, user, huserName, h⟩)
    · obtain ⟨fm, hfm, -, hmark⟩ := (exists_name_iff hquery).2 hname
      exact ⟨fm, hfm, hmark⟩
    · obtain ⟨fm, hfm, hfield, hone⟩ :=
        exists_mem_fieldMatches halgorithms hquery
        (f := .userName) hon huserName h
      refine ⟨fm, hfm, ?_⟩
      rw [FieldMatch.weightedScore, hfield, hone]
      decide

end GitPersona.Lookup
