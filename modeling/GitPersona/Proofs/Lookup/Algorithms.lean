/-
What the choice of algorithms does to a lookup. Which algorithms there
are decides the scores; their order, and how often one is listed, decide
the labels only. More algorithms add matches and raise scores, and take
nothing away (`findMatches_algorithms`).

# Where a label could leak

An algorithm is chosen for its score, and of several with one score the
first; the others could show in what is chosen after that. They do not,
since a field and its weighted score, which the fields of a profile are
compared by, and a profile with its score, which the results are sorted
by, have no label in them. Taking the labels off therefore goes past
every step of a lookup (`scoreProfile_unlabelled`,
`findMatches_unlabelled`).
-/
import GitPersona.Proofs.Lookup.Aggregation
import GitPersona.Proofs.Lookup.Matches

namespace GitPersona.Lookup

variable {settings : LookupSettings} {query value : String} {p : Profile}
    {f : Field}
  {as bs : List Algorithm} {fm : FieldMatch} {r : Match}
  {profiles : List Profile}

-- ================================================ statement vocabulary

/-- The matcher of some settings with other algorithms. -/
def Matcher.ofAlgorithms (settings : LookupSettings)
    (algorithms : List Algorithm) : Matcher :=
  .ofSettings { settings with algorithms }

/-- A field match without the algorithm that gave its score. -/
def FieldMatch.unlabelled (fm : FieldMatch) : FieldMatch :=
  { fm with algorithm := none }

/-- A match without the algorithms that gave its scores. -/
def Match.unlabelled (r : Match) : Match :=
  { r with
    algorithm := none
    fieldMatches := r.fieldMatches.map FieldMatch.unlabelled }

/-- The second match is of the same profile, has every field of the first, and
no score in it is less. -/
structure Match.Below (r s : Match) : Prop where
  profile : s.profile = r.profile
  score_le : r.score ≤ s.score
  fields : ∀ fm ∈ r.fieldMatches,
    ∃ fm' ∈ s.fieldMatches, fm'.field = fm.field ∧ fm.score ≤ fm'.score

-- ===================================================== more algorithms

/-- With more algorithms a field that matches still does, with no
lower score. -/
theorem scoreField_of_subset (hsub : as ⊆ bs)
    (h : scoreField as query value f = some fm) :
    ∃ fm', scoreField bs query value f = some fm' ∧ fm.score ≤ fm'.score := by
  obtain ⟨-, ⟨a, ha, hscore⟩, hpositive, -⟩ := scoreField_spec h
  rw [hscore] at hpositive ⊢
  obtain ⟨fm', hfm'⟩ := exists_scoreField (hsub ha) hpositive f
  exact ⟨fm', hfm', (scoreField_spec hfm').2.2.2 a (hsub ha)⟩

theorem fieldMatches_of_subset (hsub : as ⊆ bs)
    (h : fm ∈ (Matcher.ofAlgorithms settings as).fieldMatches query p) :
    ∃ fm' ∈ (Matcher.ofAlgorithms settings bs).fieldMatches query p,
      fm'.field = fm.field ∧ fm.score ≤ fm'.score := by
  obtain ⟨hon, value, hvalue, hne, hscored⟩ := mem_fieldMatches_iff.1 h
  obtain ⟨fm', hscored', hle⟩ := scoreField_of_subset hsub hscored
  have hfield : fm'.field = fm.field := (scoreField_spec hscored').1
  refine ⟨fm', mem_fieldMatches_iff.2 ?_, hfield, hle⟩
  rw [hfield]
  exact ⟨hon, value, hvalue, hne, hscored'⟩

/-- With more algorithms a profile that is matched still is, and no score of
it is lower. -/
theorem scoreProfile_of_subset (hsub : as ⊆ bs)
    (h : (Matcher.ofAlgorithms settings as).scoreProfile query p = some r) :
    ∃ s, (Matcher.ofAlgorithms settings bs).scoreProfile query p = some s
      ∧ r.Below s := by
  obtain ⟨primary, hprimary, rfl⟩ := scoreProfile_eq_some_iff.1 h
  obtain ⟨above, habove, hfield, hle⟩ :=
    fieldMatches_of_subset hsub hprimary.mem
  have hweighted : primary.weightedScore ≤ above.weightedScore :=
    weightedScore_mono hfield.symm
      (Number.le_of_lt (score_of_mem_fieldMatches hprimary.mem).1)
      hle (score_of_mem_fieldMatches habove).2
  obtain ⟨s, hs, hscore⟩ :=
    exists_scoreProfile_iff.2 ⟨above, habove, hweighted⟩
  obtain ⟨chosen, -, rfl⟩ := scoreProfile_eq_some_iff.1 hs
  exact ⟨_, hs, rfl, hscore, fun fm hfm => fieldMatches_of_subset hsub hfm⟩

theorem outcome?_of_subset (hsub : as ⊆ bs)
    (h : outcome? (Matcher.ofAlgorithms settings as) query p = some r) :
    ∃ s, outcome? (Matcher.ofAlgorithms settings bs) query p = some s := by
  obtain ⟨hr, hpositive, hfloor⟩ := outcome?_eq_some_iff.1 h
  obtain ⟨s, hs, hbelow⟩ := scoreProfile_of_subset hsub hr
  have hle := hbelow.score_le
  exact ⟨s, outcome?_eq_some_iff.2
    ⟨hs, Number.lt_of_lt_of_le hpositive hle, Number.le_trans hfloor hle⟩⟩

-- ======================================================= what is found

/-- The profiles that are found, unless they are too many, are those
with an outcome. -/
theorem profiles_findMatches_perm (m : Matcher) (profiles : List Profile)
    (hquery : Text.strip query.toList ≠ [])
    (hall : m.settings.maxResults = none) :
    ((m.findMatches query profiles).map (·.profile)).Perm
      (profiles.filter fun p => (outcome? m query p).isSome) := by
  have hcandidates : (m.candidates query profiles).map (·.profile)
      = profiles.filter fun p => (outcome? m query p).isSome := by
    rw [candidates_eq]
    exact Sorting.map_filterMap_eq_filter
      (fun _ _ hr => (scoreProfile_spec (outcome?_eq_some_iff.1 hr).1).1)
        profiles
  rw [← hcandidates, findMatches_eq hquery, hall, ← mergeSort_candidates]
  exact (List.mergeSort_perm _ _).map _

/-- With more algorithms every profile that is found still is, as
often as it was. -/
theorem profiles_findMatches_subperm (hsub : as ⊆ bs)
    (hall : settings.maxResults = none) :
    (((Matcher.ofAlgorithms settings as).findMatches query profiles).map
      (·.profile)).Subperm
      (((Matcher.ofAlgorithms settings bs).findMatches query profiles).map
        (·.profile)) := by
  by_cases hquery : Text.strip query.toList = []
  · rw [findMatches_of_blank hquery]
    exact List.nil_subperm
  · have hkept : ∀ p,
        (outcome? (Matcher.ofAlgorithms settings as) query p).isSome = true →
        (outcome? (Matcher.ofAlgorithms settings bs) query p).isSome
          = true := by
      intro p hp
      obtain ⟨r, hr⟩ := Option.isSome_iff_exists.1 hp
      obtain ⟨s, hs⟩ := outcome?_of_subset hsub hr
      rw [hs]
      rfl
    have hless := List.monotone_filter_right profiles hkept
    have hfirst := profiles_findMatches_perm (.ofAlgorithms settings as)
      profiles hquery hall
    have hsecond := profiles_findMatches_perm (.ofAlgorithms settings bs)
      profiles hquery hall
    exact hfirst.subperm.trans (hless.subperm.trans hsecond.symm.subperm)

-- ==================================================== the same algorithms

theorem matchedText_of_scoreField (h : scoreField as query value f = some fm) :
    fm.matchedText
      = if occursIn (Text.normalize query) (Text.normalize value)
        then some query else none := by
  obtain ⟨best, -, rfl⟩ := Option.map_eq_some_iff.1 h
  rfl

/-- Of the same algorithms a field has one score, whatever their order. -/
theorem scoreField_unlabelled (hsame : ∀ a, a ∈ as ↔ a ∈ bs) :
    (scoreField as query value f).map FieldMatch.unlabelled
      = (scoreField bs query value f).map FieldMatch.unlabelled := by
  have hsub : as ⊆ bs := fun a ha => (hsame a).1 ha
  have hsub' : bs ⊆ as := fun a ha => (hsame a).2 ha
  cases hfirst : scoreField as query value f with
  | none =>
      cases hsecond : scoreField bs query value f with
      | none => rfl
      | some fm' =>
          obtain ⟨fm, hfm, -⟩ := scoreField_of_subset hsub' hsecond
          rw [hfirst] at hfm
          cases hfm
  | some fm =>
      obtain ⟨fm', hsecond, hle⟩ := scoreField_of_subset hsub hfirst
      obtain ⟨again, hagain, hge⟩ := scoreField_of_subset hsub' hsecond
      obtain rfl : fm = again := by
        rw [hfirst] at hagain
        exact Option.some.inj hagain
      obtain ⟨hfield, -, hpositive, -⟩ := scoreField_spec hfirst
      have hscore : fm.score = fm'.score :=
        Number.eq_of_le_of_le hpositive hle hge
      have hfield' := (scoreField_spec hsecond).1
      have htext := matchedText_of_scoreField hfirst
      have htext' := matchedText_of_scoreField hsecond
      rw [hsecond, Option.map_some, Option.map_some]
      simp only [FieldMatch.unlabelled, hfield, hfield', hscore, htext, htext']

theorem fieldMatches_unlabelled (hsame : ∀ a, a ∈ as ↔ a ∈ bs) :
    ((Matcher.ofAlgorithms settings as).fieldMatches query p).map
      FieldMatch.unlabelled
      = ((Matcher.ofAlgorithms settings bs).fieldMatches query p).map
        FieldMatch.unlabelled := by
  rw [fieldMatches_eq, fieldMatches_eq, List.map_filterMap, List.map_filterMap]
  refine List.filterMap_congr fun f _ => ?_
  unfold fieldMatch?
  cases f.valueOf p with
  | none => rfl
  | some value =>
      by_cases hempty : value = ""
      · simp [hempty]
      · simp only [hempty, if_false]
        exact scoreField_unlabelled hsame

/-- Without labels, a match follows from its field matches without labels. -/
theorem scoreProfile_map_unlabelled (m : Matcher) (query : String)
    (p : Profile) :
    (m.scoreProfile query p).map Match.unlabelled
      = (firstMax FieldMatch.exceeds
        ((m.fieldMatches query p).map FieldMatch.unlabelled)).map
          fun primary =>
            { profile := p, score := min primary.weightedScore 1.0,
              algorithm := none
              fieldMatches := (m.fieldMatches query p).map
                FieldMatch.unlabelled } := by
  rw [Number.firstMax_map FieldMatch.unlabelled
    fun _ _ => rfl, Matcher.scoreProfile, Option.map_map, Option.map_map]
  rfl

theorem scoreProfile_unlabelled (hsame : ∀ a, a ∈ as ↔ a ∈ bs) :
    ((Matcher.ofAlgorithms settings as).scoreProfile query p).map
      Match.unlabelled
      = ((Matcher.ofAlgorithms settings bs).scoreProfile query p).map
        Match.unlabelled := by
  rw [scoreProfile_map_unlabelled,
    scoreProfile_map_unlabelled, fieldMatches_unlabelled hsame]

/-- The outcome of a profile looks at its score only. -/
theorem outcome?_map_unlabelled (m : Matcher) (query : String) (p : Profile) :
    (outcome? m query p).map Match.unlabelled
      = ((m.scoreProfile query p).map Match.unlabelled).filter
          fun r => r.score > 0.0 && r.score ≥ m.settings.minScore := by
  unfold outcome?
  cases m.scoreProfile query p with
  | none => rfl
  | some r =>
      have hscore : r.unlabelled.score = r.score := rfl
      simp only [Option.map_some, Option.filter_some, hscore]
      split <;> rfl

theorem candidates_unlabelled (hsame : ∀ a, a ∈ as ↔ a ∈ bs) :
    ((Matcher.ofAlgorithms settings as).candidates query profiles).map
      Match.unlabelled
      = ((Matcher.ofAlgorithms settings bs).candidates query profiles).map
        Match.unlabelled := by
  rw [candidates_eq, candidates_eq, List.map_filterMap, List.map_filterMap]
  refine List.filterMap_congr fun p _ => ?_
  rw [outcome?_map_unlabelled, outcome?_map_unlabelled,
    scoreProfile_unlabelled hsame]
  rfl

/-- Without labels, results are sorted and cut as they are with them. -/
theorem findMatches_map_unlabelled (m : Matcher) (query : String)
    (profiles : List Profile) :
    (m.findMatches query profiles).map Match.unlabelled
      = if Text.normalize query = [] then []
        else
          let ranked :=
            ((m.candidates query profiles).map Match.unlabelled).mergeSort
            Match.precedes
          match m.settings.maxResults with
          | some k => ranked.take k.toNat
          | none => ranked := by
  have hsort : ((m.candidates query profiles).mergeSort Match.precedes).map
      Match.unlabelled
      = ((m.candidates query profiles).map
        Match.unlabelled).mergeSort Match.precedes :=
    List.map_mergeSort fun _ _ _ _ => rfl
  unfold Matcher.findMatches
  by_cases hquery : Text.normalize query = []
  · rw [if_pos hquery, if_pos hquery]
    rfl
  · rw [if_neg hquery, if_neg hquery, ← hsort]
    cases m.settings.maxResults with
    | none => rfl
    | some k => exact List.map_take

theorem findMatches_unlabelled (hsame : ∀ a, a ∈ as ↔ a ∈ bs) :
    ((Matcher.ofAlgorithms settings as).findMatches query profiles).map
      Match.unlabelled
      = ((Matcher.ofAlgorithms settings bs).findMatches query profiles).map
        Match.unlabelled := by
  rw [findMatches_map_unlabelled, findMatches_map_unlabelled,
    candidates_unlabelled hsame]
  rfl

-- ============================================================ the choice

/-- The same algorithms in another order, or listed more often, give the same
results up to the labels. More algorithms lower no score and lose no profile,
unless the results are cut to a number. -/
theorem findMatches_algorithms (settings : LookupSettings)
    (as bs : List Algorithm)
    (query : String) :
    ((∀ a, a ∈ as ↔ a ∈ bs) → ∀ profiles,
        ((Matcher.ofAlgorithms settings as).findMatches query profiles).map
          Match.unlabelled
          = ((Matcher.ofAlgorithms settings bs).findMatches query profiles).map
            Match.unlabelled)
      ∧ (as ⊆ bs →
          (∀ p, ∀ r ∈ (Matcher.ofAlgorithms settings as).scoreProfile query p,
              ∃ s ∈ (Matcher.ofAlgorithms settings bs).scoreProfile query p,
                r.Below s)
            ∧ (settings.maxResults = none → ∀ profiles,
                (((Matcher.ofAlgorithms settings as).findMatches query
                  profiles).map
                    (·.profile)).Subperm
                  (((Matcher.ofAlgorithms settings bs).findMatches query
                    profiles).map
                    (·.profile)))) := by
  constructor
  · intro hsame profiles
    exact findMatches_unlabelled hsame
  · intro hsub
    refine ⟨fun p r hr => scoreProfile_of_subset hsub hr,
      fun hall profiles => ?_⟩
    exact profiles_findMatches_subperm hsub hall

/-- The name that is the query scores one by every algorithm, so the label is
the first of them; the results are the same without it, and the exact
comparison alone finds no more than they do. -/
theorem findMatches_algorithms_work :
    (∀ a, a ∈ [Algorithm.exact, .leading]
      ↔ a ∈ [Algorithm.leading, .exact, .leading])
      ∧ [Algorithm.exact] ⊆ [.exact, .leading]
      ∧ (homeAndWork.map fun p =>
        ((Matcher.ofAlgorithms {} [.exact, .leading]).scoreProfile "work"
        p).bind (·.algorithm)) = [none, some .exact]
      ∧ (homeAndWork.map fun p =>
        ((Matcher.ofAlgorithms {} [.leading, .exact, .leading]).scoreProfile
        "work" p).bind (·.algorithm)) = [none, some .leading]
      ∧ ((Matcher.ofAlgorithms {} [.exact, .leading]).findMatches "work"
        homeAndWork).map
          Match.unlabelled
        = ((Matcher.ofAlgorithms {} [.leading, .exact, .leading]).findMatches
          "work"
          homeAndWork).map Match.unlabelled
      ∧ (((Matcher.ofAlgorithms {} [.exact]).findMatches "work"
        homeAndWork).map
          (·.profile)).Subperm
        (((Matcher.ofAlgorithms {} [.exact, .leading]).findMatches "work"
          homeAndWork).map
          (·.profile)) := by
  have hsame : ∀ a, a ∈ [Algorithm.exact, .leading]
      ↔ a ∈ [Algorithm.leading, .exact, .leading] := by
    intro a
    cases a <;> decide
  have hsub : [Algorithm.exact] ⊆ [.exact, .leading] := by decide
  refine ⟨hsame, hsub, by decide +kernel, by decide +kernel, ?_, ?_⟩
  · exact (findMatches_algorithms {} _ _ "work").1 hsame homeAndWork
  · exact ((findMatches_algorithms {} _ _ "work").2 hsub).2 rfl homeAndWork

end GitPersona.Lookup
