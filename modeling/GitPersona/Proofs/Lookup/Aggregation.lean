/-
How the scores of a profile come together. Twice the first greatest one
is chosen: of the algorithms, for the score of a field
(`measures_of_scoreField`), and of the fields, by their weighted scores,
for the score of the profile (`aggregates_of_scoreProfile`). Nothing is
added up, and nothing but the chosen one counts.

# Fewer fields

A field match depends on its own field only, so a field that is searched
no longer takes its match away and changes no other
(`fieldMatches_withoutFields`). The first greatest of all that were there
is the first greatest of what is left, if it is left itself; otherwise
what is chosen now was not above it before (`narrows_of_scoreProfile`).
-/
import GitPersona.Proofs.Lookup.Fields
import GitPersona.Proofs.Sorting

namespace GitPersona.Lookup

open Number (FirstGreatest IsNumber line)

variable {m : Matcher} {query value : String} {p : Profile}
    {algorithms : List Algorithm}
  {f : Field} {fm : FieldMatch} {r : Match} {off : Field → Bool}

-- ================================================ statement vocabulary

/-- The field is searched, and some algorithm gives what the profile holds in
it a positive score. -/
def Matcher.Fits (m : Matcher) (query : String) (p : Profile)
    (f : Field) : Prop :=
  f.isOn m.settings = true
    ∧ ∃ value, f.valueOf p = some value ∧ value ≠ ""
      ∧ ∃ a ∈ m.algorithms, 0.0 < score a query value

/-- A field match has the greatest score that an algorithm gives the value, and
the first algorithm that gives it. -/
structure Measures (algorithms : List Algorithm) (query value : String)
    (fm : FieldMatch) :
    Prop where
  positive : 0.0 < fm.score
  greatest : ∀ a ∈ algorithms, score a query value ≤ fm.score
  attained : ∃ before a after, algorithms = before ++ a :: after
    ∧ fm.algorithm = some a
    ∧ score a query value = fm.score
    ∧ ∀ b ∈ before, score b query value < fm.score

/-- A match holds the fields that fit, in order, each as it measures, and has
the greatest weighted score among them, with the algorithm of the first field
that has it. -/
structure Match.Aggregates (r : Match) (m : Matcher) (query : String)
    (p : Profile) : Prop where
  profile : r.profile = p
  order : (r.fieldMatches.map (·.field)).Sublist
    [.name, .userName, .email, .vaultName, .sshKeyTitle]
  fits : ∀ f, f ∈ r.fieldMatches.map (·.field) ↔ m.Fits query p f
  measured : ∀ fm ∈ r.fieldMatches,
    ∃ value, fm.field.valueOf p = some value
      ∧ Measures m.algorithms query value fm
  greatest : ∀ fm ∈ r.fieldMatches, fm.score * fm.field.weight ≤ r.score
  primary : ∃ before primary after, r.fieldMatches = before ++ primary :: after
    ∧ r.primaryField = some primary
    ∧ primary.score * primary.field.weight = r.score
    ∧ primary.algorithm = r.algorithm
    ∧ ∀ fm ∈ before, fm.score * fm.field.weight < r.score

/-- The matcher without some of the fields that it searches. -/
def Matcher.withoutFields (m : Matcher) (off : Field → Bool) : Matcher :=
  { m with settings := { m.settings with
      matchName := m.settings.matchName && !off .name
      matchUserName := m.settings.matchUserName && !off .userName
      matchEmail := m.settings.matchEmail && !off .email
      matchVaultName := m.settings.matchVaultName && !off .vaultName
      matchSshKeyTitle := m.settings.matchSshKeyTitle && !off .sshKeyTitle } }

/-- What is left of a match without some fields: the other field matches as
they are, if there are any, with a score that is no greater, and the same one
as long as the primary field is left. -/
structure Match.Narrows (r : Match) (off : Field → Bool)
    (left : Option Match) : Prop where
  gone : left = none ↔ ∀ fm ∈ r.fieldMatches, off fm.field = true
  kept : ∀ s ∈ left, s.fieldMatches = r.fieldMatches.filter fun fm =>
    !off fm.field
  score_le : ∀ s ∈ left, s.score ≤ r.score
  primary : ∀ primary ∈ r.primaryField, off primary.field = false →
    ∃ s ∈ left, s.score = r.score ∧ s.primaryField = some primary
      ∧ s.algorithm = r.algorithm

-- =========================================================== one field

/-- A field match is what the algorithms make of the value. -/
theorem measures_of_scoreField
    (h : scoreField algorithms query value f = some fm) :
    Measures algorithms query value fm := by
  obtain ⟨-, -, hpositive, hgreatest⟩ := scoreField_spec h
  obtain ⟨⟨a, best⟩, hbest, rfl⟩ := Option.map_eq_some_iff.1 h
  obtain ⟨hscore, -, before, after, hsplit, hbefore, -⟩ :=
    firstGreatest_of_bestAlgorithm hbest
  refine ⟨hpositive, hgreatest, before, a, after, hsplit, rfl, hscore.symm,
    fun b hb => ?_⟩
  show score b query value < best
  rw [hscore, (isNumber_score b query value).lt_iff]
  exact hbefore b hb

/-- The fields that are matched are the fields that fit. -/
theorem mem_map_field_iff :
    f ∈ (m.fieldMatches query p).map (·.field) ↔ m.Fits query p f := by
  rw [List.mem_map]
  constructor
  · intro h
    obtain ⟨fm, hfm, rfl⟩ := h
    obtain ⟨hon, value, hvalue, hne, hscored⟩ := mem_fieldMatches_iff.1 hfm
    obtain ⟨-, ⟨a, ha, hscore⟩, hpositive, -⟩ := scoreField_spec hscored
    rw [hscore] at hpositive
    exact ⟨hon, value, hvalue, hne, a, ha, hpositive⟩
  · intro h
    obtain ⟨hon, value, hvalue, hne, a, ha, hpositive⟩ := h
    obtain ⟨fm, hscored⟩ := exists_scoreField ha hpositive f
    obtain rfl := (scoreField_spec hscored).1
    exact ⟨fm, mem_fieldMatches_iff.2 ⟨hon, value, hvalue, hne, hscored⟩, rfl⟩

-- ========================================================== the fields

/-- The match of one field, as far as the field has a value. -/
def fieldMatch? (m : Matcher) (query : String) (p : Profile) (f : Field) :
    Option FieldMatch :=
  match f.valueOf p with
  | some value =>
    if value = "" then none else scoreField m.algorithms query value f
  | none => none

theorem fieldMatches_eq (m : Matcher) (query : String) (p : Profile) :
    m.fieldMatches query p = m.fields.filterMap (fieldMatch? m query p) :=
  rfl

theorem field_of_fieldMatch? (h : fieldMatch? m query p f = some fm) :
    fm.field = f := by
  unfold fieldMatch? at h
  split at h
  · split at h
    · cases h
    · exact (scoreField_spec h).1
  · cases h

/-- The fields of the matches are some of the fields that are searched. -/
theorem map_field_fieldMatches (m : Matcher) (query : String) (p : Profile) :
    (m.fieldMatches query p).map (·.field)
      = m.fields.filter fun f => (fieldMatch? m query p f).isSome := by
  rw [fieldMatches_eq]
  exact Sorting.map_filterMap_eq_filter (fun _ _ => field_of_fieldMatch?)
    m.fields

theorem sublist_map_field (m : Matcher) (query : String) (p : Profile) :
    ((m.fieldMatches query p).map (·.field)).Sublist Field.all := by
  rw [map_field_fieldMatches]
  exact List.filter_sublist.trans List.filter_sublist

-- ========================================================= the profile

/-- A match aggregates the fields of its profile. -/
theorem aggregates_of_scoreProfile (h : m.scoreProfile query p = some r) :
    r.Aggregates m query p := by
  obtain ⟨primary, hprimary, rfl⟩ := scoreProfile_eq_some_iff.1 h
  obtain ⟨before, after, hsplit, hbefore, -⟩ := id hprimary
  refine ⟨rfl, sublist_map_field m query p, fun f => mem_map_field_iff,
    fun fm hfm => ?_,
    fun fm hfm => ?_, ?_⟩
  · obtain ⟨-, value, hvalue, -, hscored⟩ := mem_fieldMatches_iff.1 hfm
    exact ⟨value, hvalue, measures_of_scoreField hscored⟩
  · exact (isNumber_weightedScore hfm).le_iff.2 (hprimary.le hfm)
  · refine ⟨before, primary, after, hsplit,
      firstMax_fieldMatches_iff.2 hprimary, rfl, rfl,
      fun fm hfm => ?_⟩
    have hmem : fm ∈ m.fieldMatches query p := by
      rw [hsplit]
      exact List.mem_append_left _ hfm
    exact (isNumber_weightedScore hmem).lt_iff.2 (hbefore fm hfm)

theorem scoreProfile_eq_none_iff_forall :
    m.scoreProfile query p = none ↔ ∀ f, ¬m.Fits query p f := by
  rw [scoreProfile_eq_none_iff, ← List.map_eq_nil_iff (f := (·.field)),
    List.eq_nil_iff_forall_not_mem]
  simp only [mem_map_field_iff]

-- ======================================================== fewer fields

theorem isOn_withoutFields (m : Matcher) (off : Field → Bool) (f : Field) :
    f.isOn (m.withoutFields off).settings = (f.isOn m.settings && !off f) := by
  cases f <;> rfl

/-- Fields that are searched no longer take their own matches away. -/
theorem fieldMatches_withoutFields (m : Matcher) (off : Field → Bool)
    (query : String)
    (p : Profile) : (m.withoutFields off).fieldMatches query p
      = (m.fieldMatches query p).filter fun fm => !off fm.field := by
  have hfields : (m.withoutFields off).fields = m.fields.filter fun f =>
      !off f := by
    unfold Matcher.fields
    rw [List.filter_filter]
    refine List.filter_congr fun f _ => ?_
    rw [isOn_withoutFields, Bool.and_comm]
  have hmatch : fieldMatch? (m.withoutFields off) query p
      = fieldMatch? m query p := rfl
  rw [fieldMatches_eq, fieldMatches_eq, hfields, hmatch, List.filterMap_filter,
    List.filter_filterMap]
  refine List.filterMap_congr fun f _ => ?_
  cases hf : fieldMatch? m query p f with
  | none => simp
  | some fm =>
      have hfield := field_of_fieldMatch? hf
      cases hoff : off f <;> simp [hfield, hoff, Option.filter]

/-- Without some fields a match is narrowed to what is left. -/
theorem narrows_of_scoreProfile (h : m.scoreProfile query p = some r)
    (off : Field → Bool) :
    r.Narrows off ((m.withoutFields off).scoreProfile query p) := by
  obtain ⟨primary, hprimary, rfl⟩ := scoreProfile_eq_some_iff.1 h
  have hleft := fieldMatches_withoutFields m off query p
  refine ⟨?_, fun s hs => ?_, fun s hs => ?_, fun first hfirst hon => ?_⟩
  · rw [scoreProfile_eq_none_iff, hleft, List.filter_eq_nil_iff]
    simp
  · obtain ⟨-, -, rfl⟩ := scoreProfile_eq_some_iff.1 hs
    exact hleft
  · obtain ⟨chosen, hchosen, rfl⟩ := scoreProfile_eq_some_iff.1 hs
    have hmem : chosen ∈ m.fieldMatches query p := by
      have hin := hchosen.mem
      rw [hleft] at hin
      exact List.mem_of_mem_filter hin
    exact (isNumber_weightedScore hmem).le_iff.2 (hprimary.le hmem)
  · have hsame : primary = first :=
      hprimary.unique (firstMax_fieldMatches_iff.1 hfirst)
    subst hsame
    have hstill : FirstGreatest (fun fm => line fm.weightedScore)
        ((m.withoutFields off).fieldMatches query p) primary := by
      rw [hleft]
      exact hprimary.filter (by rw [hon]; rfl)
    exact ⟨_, scoreProfile_eq_some_iff.2 ⟨primary, hstill, rfl⟩, rfl,
      firstMax_fieldMatches_iff.2 hstill, rfl⟩

/-- A profile is matched when a field fits, by the fields that fit, with the
greatest of their weighted scores. Fields that are searched no longer take away
their own matches and nothing else: the score does not rise, and it stays as
long as the primary field does. -/
theorem scoreProfile_aggregates (m : Matcher) (query : String) (p : Profile) :
    (m.scoreProfile query p = none ↔ ∀ f, ¬m.Fits query p f)
      ∧ (∀ r ∈ m.scoreProfile query p, r.Aggregates m query p)
      ∧ ∀ off : Field → Bool,
          (m.scoreProfile query p = none →
            (m.withoutFields off).scoreProfile query p = none)
            ∧ ∀ r ∈ m.scoreProfile query p,
                r.Narrows off
                  ((m.withoutFields off).scoreProfile query p) := by
  refine ⟨scoreProfile_eq_none_iff_forall,
    fun r hr => aggregates_of_scoreProfile hr,
    fun off => ⟨fun hnone => ?_, fun r hr => narrows_of_scoreProfile hr off⟩⟩
  rw [scoreProfile_eq_none_iff] at hnone ⊢
  rw [fieldMatches_withoutFields, hnone]
  rfl

/-- A profile whose user's name and e-mail both start with the same word. -/
def adaAtWork : Profile :=
  { name := "work", email := "ada@work.example", userName := some "Ada" }

/-- Without the user's name, which is primary, the e-mail is left. -/
theorem scoreProfile_aggregates_ada :
    ∃ r s, (Matcher.ofSettings {}).scoreProfile "ada" adaAtWork = some r
      ∧ r.Aggregates (Matcher.ofSettings {}) "ada" adaAtWork
      ∧ r.primaryField.map (·.field) = some .userName
      ∧ ((Matcher.ofSettings {}).withoutFields (· == .userName)).scoreProfile
          "ada" adaAtWork = some s
      ∧ r.Narrows (· == .userName) (some s)
      ∧ s.primaryField.map (·.field) = some .email := by
  obtain ⟨-, haggregates, hnarrows⟩ :=
    scoreProfile_aggregates (Matcher.ofSettings {}) "ada" adaAtWork
  have hwhole : ((Matcher.ofSettings {}).scoreProfile "ada"
      adaAtWork).isSome = true := by
    decide +kernel
  have hless : (((Matcher.ofSettings {}).withoutFields
      (· == .userName)).scoreProfile "ada" adaAtWork).isSome = true := by
    decide +kernel
  obtain ⟨r, hr⟩ := Option.isSome_iff_exists.1 hwhole
  obtain ⟨s, hs⟩ := Option.isSome_iff_exists.1 hless
  have hprimary : (((Matcher.ofSettings {}).scoreProfile "ada" adaAtWork).bind
      Match.primaryField).map (·.field) = some .userName := by
    decide +kernel
  have hprimary' : ((((Matcher.ofSettings {}).withoutFields
      (· == .userName)).scoreProfile "ada" adaAtWork).bind
      Match.primaryField).map (·.field) = some .email := by
    decide +kernel
  rw [hr] at hprimary
  rw [hs] at hprimary'
  have hleft := (hnarrows (· == .userName)).2 r hr
  rw [hs] at hleft
  exact ⟨r, s, hr, haggregates r hr, hprimary, hs, hleft, hprimary'⟩

end GitPersona.Lookup
