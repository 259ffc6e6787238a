/-
What looking up a query returns, said without sorting. `Lists` says it
of the list before it is cut to a number of results; `findMatches_spec`
says that the list is cut from its start, that a higher floor keeps an
initial segment, and that blank queries find nothing. The floor acts
before the sort in the lookup, and the initial segment needs it to act
after: that the two agree is `Sorting.placements_floor`.
-/
import GitPersona.Lookup.Matcher
import GitPersona.Proofs.Sorting
import GitPersona.Proofs.Text.Fold

namespace GitPersona.Lookup

open Number (IsNumber)

-- ================================================ statement vocabulary

/-- The list holds what the profiles score for the query, once for each
position whose score is positive and reaches the floor: the greatest score
first, equal ones by name, and those alike in both in the order they came. -/
def Matcher.Lists (m : Matcher) (query : String) (profiles : List Profile)
    (all : List Match) :
    Prop :=
  ∃ placed : List (Nat × Match),
    placed.map Prod.snd = all
      ∧ (placed.map Prod.fst).Nodup
      ∧ (∀ i r, (i, r) ∈ placed ↔ ∃ p,
        profiles[i]? = some p ∧ m.scoreProfile query p = some r
          ∧ r.score > 0.0 ∧ r.score ≥ m.settings.minScore)
      ∧ placed.Pairwise fun x y => x.2.score > y.2.score
          ∨ (x.2.score == y.2.score) = true
            ∧ (x.2.profile.name < y.2.profile.name
              ∨ x.2.profile.name = y.2.profile.name ∧ x.1 < y.1)

/-- The matcher with another floor. -/
def Matcher.withMinScore (m : Matcher) (minScore : Float) : Matcher :=
  { m with settings := { m.settings with minScore } }

/-- The matcher with another number of results. -/
def Matcher.withMaxResults (m : Matcher) (maxResults : Option Int) : Matcher :=
  { m with settings := { m.settings with maxResults } }

-- ============================================================ outcomes

variable {m : Matcher} {query : String} {profiles : List Profile}

/-- What a profile scores, if it is positive and reaches the floor. -/
def outcome? (m : Matcher) (query : String) (p : Profile) : Option Match :=
  (m.scoreProfile query p).filter fun r => r.score > 0.0
    && r.score ≥ m.settings.minScore

theorem outcome?_eq_some_iff {p : Profile} {r : Match} :
    outcome? m query p = some r
    ↔ m.scoreProfile query p = some r ∧ r.score > 0.0
      ∧ r.score ≥ m.settings.minScore := by
  rw [outcome?, Option.filter_eq_some_iff, Bool.and_eq_true, decide_eq_true_eq,
    decide_eq_true_eq]

theorem isNumber_of_outcome? (p : Profile) (r : Match)
    (h : outcome? m query p = some r) :
    IsNumber r.score :=
  (Number.isNumber_of_le (outcome?_eq_some_iff.1 h).2.2).2

/-- The matches of a query in their places, before they are cut to a
number of results. -/
def placed (m : Matcher) (query : String) (profiles : List Profile) :
    List (Nat × Match) :=
  Sorting.placements (outcome? m query)
    (Sorting.standing Match.score (·.profile.name)) profiles

theorem candidates_eq (m : Matcher) (query : String)
    (profiles : List Profile) :
    m.candidates query profiles = profiles.filterMap (outcome? m query) := by
  rw [Matcher.candidates, List.filter_filterMap]
  rfl

theorem mergeSort_candidates :
    (m.candidates query profiles).mergeSort Match.precedes
      = (placed m query profiles).map Prod.snd := by
  rw [candidates_eq, placed]
  exact Sorting.mergeSort_eq_placements Match.score (·.profile.name)
    (fun _ _ => rfl)
    isNumber_of_outcome?

theorem lists_placed :
    m.Lists query profiles ((placed m query profiles).map Prod.snd) := by
  refine ⟨_, rfl, Sorting.nodup_placements _ _ _, fun i r => ?_,
    Sorting.pairwise_standing Match.score (·.profile.name)
      isNumber_of_outcome?⟩
  rw [placed, Sorting.mem_placements_iff]
  simp only [outcome?_eq_some_iff]

-- ========================================================= cut and floor

/-- The results are cut from the start of the sorted list. -/
theorem findMatches_eq (h : Text.strip query.toList ≠ []) :
    m.findMatches query profiles
      = match m.settings.maxResults with
        | some k => ((placed m query profiles).map Prod.snd).take k.toNat
        | none => (placed m query profiles).map Prod.snd := by
  rw [Matcher.findMatches, if_neg (Text.normalize_eq_nil_iff.not.2 h)]
  cases m.settings.maxResults with
  | some k => exact congrArg (List.take k.toNat) mergeSort_candidates
  | none => exact mergeSort_candidates

theorem findMatches_of_blank (h : Text.strip query.toList = []) :
    m.findMatches query profiles = [] := by
  rw [Matcher.findMatches, if_pos (Text.normalize_eq_nil_iff.2 h)]

/-- A higher floor drops outcomes of a lower one. -/
theorem outcome?_withMinScore {low high : Float} (h : low ≤ high)
    (p : Profile) :
    outcome? (m.withMinScore high) query p
      = (outcome? (m.withMinScore low) query p).filter (·.score ≥ high) := by
  show (m.scoreProfile query p).filter
      (fun r => r.score > 0.0 && r.score ≥ high)
    = ((m.scoreProfile query p).filter fun r => r.score > 0.0
      && r.score ≥ low).filter
      (·.score ≥ high)
  rw [Option.filter_filter]
  congr 1
  funext r
  rw [Bool.eq_iff_iff]
  simp only [Bool.and_eq_true, decide_eq_true_eq]
  constructor
  · rintro ⟨hpos, hhigh⟩
    exact ⟨⟨hpos, Number.le_trans h hhigh⟩, hhigh⟩
  · rintro ⟨⟨hpos, -⟩, hhigh⟩
    exact ⟨hpos, hhigh⟩

/-- A higher floor keeps an initial segment of the sorted list. -/
theorem placed_withMinScore_isPrefix {low high : Float} (h : low ≤ high) :
    (placed (m.withMinScore high) query profiles).IsPrefix
      (placed (m.withMinScore low) query profiles) := by
  obtain ⟨tail, hcut, -⟩ :=
    Sorting.placements_floor (l := profiles) Match.score (·.profile.name)
    (f := outcome? (m.withMinScore low) query) isNumber_of_outcome?
      (Number.isNumber_of_le h).2
  refine ⟨tail, ?_⟩
  rw [placed, funext (outcome?_withMinScore h)]
  exact hcut.symm

/-- Looking a query up: blank ones find nothing, and for any other the results
are the start of the sorted list, as much of it as is asked for. A higher floor
finds an initial segment of what a lower one finds, and at most `k` results are
the first `k` of all. -/
theorem findMatches_spec (m : Matcher) (query : String)
    (profiles : List Profile)
    {low high : Float} (h : low ≤ high) (k : Int) :
    (Text.strip query.toList = [] → m.findMatches query profiles = [])
      ∧ (Text.strip query.toList ≠ [] → ∃ all, m.Lists query profiles all
          ∧ m.findMatches query profiles
            = match m.settings.maxResults with
              | some n => all.take n.toNat
              | none => all)
      ∧ (((m.withMinScore high).withMaxResults none).findMatches query
        profiles).IsPrefix
          (((m.withMinScore low).withMaxResults none).findMatches query
            profiles)
      ∧ (m.withMaxResults (some k)).findMatches query profiles
          = ((m.withMaxResults none).findMatches query profiles).take
            k.toNat := by
  refine ⟨findMatches_of_blank,
    fun hquery => ⟨_, lists_placed, findMatches_eq hquery⟩, ?_, ?_⟩
  · by_cases hquery : Text.strip query.toList = []
    · rw [findMatches_of_blank hquery]
      exact List.nil_prefix
    · rw [findMatches_eq hquery, findMatches_eq hquery]
      exact (placed_withMinScore_isPrefix h).map Prod.snd
  · by_cases hquery : Text.strip query.toList = []
    · rw [findMatches_of_blank hquery, findMatches_of_blank hquery,
        List.take_nil]
    · rw [findMatches_eq hquery, findMatches_eq hquery]
      rfl

/-- Two profiles to look for. -/
def homeAndWork : List Profile :=
  [{ name := "home", email := "a@home.example" },
    { name := "work", email := "a@work.example" }]

/-- The default settings, with two floors, a blank query and one
that is not. -/
theorem findMatches_homeAndWork :
    (0.3 : Float) ≤ 0.9
      ∧ (Matcher.ofSettings {}).findMatches "  " homeAndWork = []
      ∧ (∃ all, (Matcher.ofSettings {}).Lists "work" homeAndWork all
          ∧ (Matcher.ofSettings {}).findMatches "work" homeAndWork = all)
      ∧ ((((Matcher.ofSettings {}).withMinScore 0.9).withMaxResults
        none).findMatches "work"
          homeAndWork).IsPrefix
        ((((Matcher.ofSettings {}).withMinScore 0.3).withMaxResults
          none).findMatches "work"
          homeAndWork) := by
  have hfloors : (0.3 : Float) ≤ 0.9 := by decide
  have hblank := findMatches_spec (Matcher.ofSettings {}) "  " homeAndWork
    hfloors 1
  have hwork := findMatches_spec (Matcher.ofSettings {}) "work" homeAndWork
    hfloors 1
  exact ⟨hfloors, hblank.1 (by decide), hwork.2.1 (by decide), hwork.2.2.1⟩

end GitPersona.Lookup
