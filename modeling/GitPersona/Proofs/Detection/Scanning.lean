/-
Where a ranking has no answer. Of all signals one can give up: the one
that asks whether the working directory is in one of the directories of
a profile. It goes through the entries in order and ends at the first
that contains the working directory; an entry that the system refuses,
met before that, ends everything (`Stumbles`). So a ranking is refused
exactly if that signal is on and some profile stumbles
(`rank_eq_error_iff`).

Everywhere else scoring and ranking are what they would be if no signal
ever gave up. `finding?`, `firing`, `score?` and `ranking` are that
reading, and `rank_eq_ok_iff` leads back to it, so that what a ranking
holds can be said without minding refusals.
-/
import GitPersona.Detection.Ranking
import GitPersona.Proofs.Attempt
import GitPersona.Proofs.Path.Nesting

namespace GitPersona.Detection

variable {homes : Homes} {c : Context} {settings : DetectionSettings}
  {p : Profile} {s : Signal} {signals : List Signal} {f : Finding}
  {profiles : List Profile} {defect : Path.Defect}

-- ================================================== statement vocabulary

/-- Among the entries of a profile one that the system refuses comes before
any that contains the working directory. -/
def Stumbles (homes : Homes) (c : Context) (p : Profile) : Prop :=
  ∃ before entry after, p.includeIfDirs = before ++ entry :: after
    ∧ (∀ earlier ∈ before, c.workingDir.isWithin homes earlier = .ok false)
    ∧ Path.Refused homes entry

/-- A profile without entries has none to stumble over. -/
theorem not_stumbles_of_nil (h : p.includeIfDirs = []) :
    ¬Stumbles homes c p := by
  rintro ⟨before, entry, after, hsplit, -⟩
  rw [h] at hsplit
  simp at hsplit

-- =============================================================== a signal

/-- What a signal says of a profile, nothing if it gives up. -/
def finding? (homes : Homes) (c : Context) (p : Profile) (s : Signal) :
    Option Finding :=
  (s.evaluate homes c p).toOption.join

/-- A signal finds something when its rule fires. -/
theorem finding?_eq_some_iff : finding? homes c p s = some f
    ↔ s.evaluate homes c p = .ok (some f) := by
  unfold finding?
  cases s.evaluate homes c p with
  | error defect => simp [Except.toOption]
  | ok o => simp [Except.toOption]

/-- The rule on entries comes to grief exactly where the profile stumbles. -/
theorem includeIfDir_eq_error_iff : includeIfDir homes c p = .error defect
    ↔ defect = .nullByte ∧ Stumbles homes c p := by
  unfold includeIfDir Stumbles
  rw [map_eq_error_iff, findM?_eq_error_iff]
  simp only [Path.isWithin_eq_error_iff]
  constructor
  · rintro ⟨before, entry, after, hsplit, hbefore, hdefect, hrefused⟩
    exact ⟨hdefect, before, entry, after, hsplit, hbefore, hrefused⟩
  · rintro ⟨hdefect, before, entry, after, hsplit, hbefore, hrefused⟩
    exact ⟨before, entry, after, hsplit, hbefore, hdefect, hrefused⟩

/-- No signal gives up but the one on directories, which does where the
profile stumbles. -/
theorem evaluate_eq_error_iff : s.evaluate homes c p = .error defect
    ↔ defect = .nullByte ∧ s = .includeIfDir ∧ Stumbles homes c p := by
  cases s with
  | includeIfDir =>
      rw [and_iff_right rfl]
      exact includeIfDir_eq_error_iff
  | remoteUrl => simp [Signal.evaluate]
  | directoryPath => simp [Signal.evaluate]
  | hostname => simp [Signal.evaluate]
  | gitConfig => simp [Signal.evaluate]

/-- A rule has an outcome unless it is on entries and the profile stumbles. -/
theorem exists_evaluate_eq_ok_iff : (∃ o, s.evaluate homes c p = .ok o)
    ↔ (s = .includeIfDir → ¬Stumbles homes c p) := by
  rw [exists_ok_iff_ne_error]
  simp only [ne_eq, evaluate_eq_error_iff]
  simp

/-- The outcome of a rule, where it has one, is what the signal finds. -/
theorem evaluate_eq_ok (h : s = .includeIfDir → ¬Stumbles homes c p) :
    s.evaluate homes c p = .ok (finding? homes c p s) := by
  obtain ⟨o, ho⟩ := exists_evaluate_eq_ok_iff.2 h
  unfold finding?
  rw [ho]
  cases o <;> rfl

/-- An entry of a profile contains the working directory. -/
def contains (homes : Homes) (c : Context) (entry : String) : Bool :=
  (c.workingDir.isWithin homes entry).toOption.getD false

/-- An entry contains the working directory when it says so. -/
theorem contains_iff {entry : String} : contains homes c entry = true
    ↔ c.workingDir.isWithin homes entry = .ok true := by
  unfold contains
  cases c.workingDir.isWithin homes entry with
  | error defect => simp [Except.toOption]
  | ok inside => simp [Except.toOption]

/-- Where a profile does not stumble, the first entry that contains the
working directory counts. -/
theorem includeIfDir_eq_ok (h : ¬Stumbles homes c p) :
    includeIfDir homes c p
      = .ok ((p.includeIfDirs.find? (contains homes c)).map fun entry =>
          { confidence := 1.0
            evidence := c.workingDir.text ++ " is inside '" ++ entry
              ++ "'" }) := by
  have hok : ∃ o, includeIfDir homes c p = .ok o :=
    (exists_evaluate_eq_ok_iff (s := .includeIfDir)).2 fun _ => h
  obtain ⟨o, ho⟩ := hok
  unfold includeIfDir at ho ⊢
  obtain ⟨found, hfound, -⟩ := map_eq_ok_iff.1 ho
  rw [hfound, ← find?_of_findM?_eq_ok hfound]
  rfl

/-- A profile does not stumble where the rule on entries has an outcome. -/
theorem not_stumbles_of_includeIfDir {o : Option Finding}
    (h : includeIfDir homes c p = .ok o) : ¬Stumbles homes c p :=
  fun hstumbles => by
    rw [includeIfDir_eq_error_iff.2 ⟨rfl, hstumbles⟩] at h
    cases h

-- ============================================================== a profile

/-- The rules that fire for a profile, as far as signals say something. -/
def firing (homes : Homes) (c : Context) (p : Profile)
    (signals : List Signal) : List Fired :=
  signals.filterMap fun s => (finding? homes c p s).map s.rule

/-- The score of a profile, as far as signals say something. -/
def score? (homes : Homes) (c : Context) (signals : List Signal)
    (p : Profile) : Option Detected :=
  assess p (firing homes c p signals)

/-- The rules of a profile come to grief when entries are looked at and
it stumbles. -/
theorem firedRules_eq_error_iff :
    firedRules homes c p signals = .error defect
      ↔ defect = .nullByte ∧ .includeIfDir ∈ signals
        ∧ Stumbles homes c p := by
  unfold firedRules
  rw [filterMapM_eq_error_iff_exists fun s _ defect' h =>
    (evaluate_eq_error_iff.1 (map_eq_error_iff.1 h)).1]
  refine and_congr_right fun _ => ?_
  simp only [map_eq_error_iff, evaluate_eq_error_iff, true_and]
  constructor
  · rintro ⟨s, hs, rfl, hstumbles⟩
    exact ⟨hs, hstumbles⟩
  · rintro ⟨hs, hstumbles⟩
    exact ⟨_, hs, rfl, hstumbles⟩

/-- Otherwise the rules that fire are those that find something. -/
theorem firedRules_eq_ok_iff {fired : List Fired} :
    firedRules homes c p signals = .ok fired
      ↔ (.includeIfDir ∈ signals → ¬Stumbles homes c p)
        ∧ fired = firing homes c p signals := by
  unfold firedRules firing
  rw [filterMapM_eq_ok_iff]
  have hrule : ∀ s : Signal,
      ((s.evaluate homes c p).map (·.map s.rule)).toOption.join
        = (finding? homes c p s).map s.rule := by
    intro s
    unfold finding?
    cases s.evaluate homes c p <;> rfl
  simp only [hrule]
  refine and_congr_left fun _ => ?_
  have hevaluate : ∀ s : Signal,
      (∃ o, (s.evaluate homes c p).map (·.map s.rule) = .ok o)
        ↔ (s = .includeIfDir → ¬Stumbles homes c p) := by
    intro s
    rw [← exists_evaluate_eq_ok_iff]
    simp only [map_eq_ok_iff]
    constructor
    · rintro ⟨_, o, ho, -⟩
      exact ⟨o, ho⟩
    · rintro ⟨o, ho⟩
      exact ⟨_, o, ho, rfl⟩
  simp only [hevaluate]
  constructor
  · exact fun h hmem => h _ hmem rfl
  · rintro h s hs rfl
    exact h hs

/-- There is no score when entries are looked at and the profile stumbles. -/
theorem scoreProfile_eq_error_iff :
    scoreProfile homes c signals p = .error defect
      ↔ defect = .nullByte ∧ .includeIfDir ∈ signals
        ∧ Stumbles homes c p := by
  rw [scoreProfile, map_eq_error_iff, firedRules_eq_error_iff]

/-- Otherwise a profile scores by what its rules find. -/
theorem scoreProfile_eq_ok_iff {o : Option Detected} :
    scoreProfile homes c signals p = .ok o
      ↔ (.includeIfDir ∈ signals → ¬Stumbles homes c p)
        ∧ o = score? homes c signals p := by
  unfold scoreProfile score?
  rw [map_eq_ok_iff]
  simp only [firedRules_eq_ok_iff]
  constructor
  · rintro ⟨fired, ⟨hclear, rfl⟩, rfl⟩
    exact ⟨hclear, rfl⟩
  · rintro ⟨hclear, rfl⟩
    exact ⟨_, ⟨hclear, rfl⟩, rfl⟩

theorem score?_of_eq_ok {d : Detected}
    (h : scoreProfile homes c signals p = .ok (some d)) :
    score? homes c signals p = some d :=
  (scoreProfile_eq_ok_iff.1 h).2.symm

-- ============================================================== a ranking

/-- The enabled signals are those that are on. -/
theorem mem_enabled_iff :
    s ∈ Signal.enabled settings ↔ s.isOn settings = true := by
  have hall : s ∈ Signal.all := by cases s <;> decide
  rw [Signal.enabled, List.mem_filter, and_iff_right hall]

/-- The score of a profile, if it reaches the floor. -/
def outcome? (homes : Homes) (c : Context) (settings : DetectionSettings)
    (p : Profile) : Option Detected :=
  (score? homes c (Signal.enabled settings) p).filter
    (·.confidence ≥ settings.minConfidence)

/-- The ranking of profiles, as far as signals say something. -/
def ranking (homes : Homes) (c : Context) (settings : DetectionSettings)
    (profiles : List Profile) : List Detected :=
  (profiles.filterMap (outcome? homes c settings)).mergeSort
    Detected.precedes

/-- All profiles have a score, or have none to reach, unless entries are
looked at and one of them stumbles. -/
theorem forall_exists_scoreProfile_iff :
    (∀ p ∈ profiles, ∃ o,
        scoreProfile homes c (Signal.enabled settings) p = .ok o)
      ↔ (settings.checkIncludeIf = true →
          ∀ p ∈ profiles, ¬Stumbles homes c p) := by
  simp only [scoreProfile_eq_ok_iff, exists_and_left, exists_eq, and_true,
    mem_enabled_iff]
  exact ⟨fun h hon p hp => h p hp hon, fun h p hp hon => h hon p hp⟩

/-- The scores that reach the floor are the outcomes. -/
theorem filter_scores (h : ∀ p ∈ profiles, ∃ o,
      scoreProfile homes c (Signal.enabled settings) p = .ok o) :
    List.filter (·.confidence ≥ settings.minConfidence)
        (profiles.filterMap fun p =>
          (scoreProfile homes c (Signal.enabled settings) p).toOption.join)
      = profiles.filterMap (outcome? homes c settings) := by
  rw [List.filter_filterMap]
  refine List.filterMap_congr fun p hp => ?_
  obtain ⟨o, ho⟩ := h p hp
  rw [ho, (scoreProfile_eq_ok_iff.1 ho).2]
  cases hscore : score? homes c (Signal.enabled settings) p <;>
    simp [outcome?, hscore, Except.toOption]

/-- The candidates are the outcomes of profiles, none of which stumbles. -/
theorem candidates_eq_ok_iff {ds : List Detected} :
    candidates homes c settings profiles = .ok ds
      ↔ (settings.checkIncludeIf = true →
          ∀ p ∈ profiles, ¬Stumbles homes c p)
        ∧ ds = profiles.filterMap (outcome? homes c settings) := by
  unfold candidates
  rw [map_eq_ok_iff, ← forall_exists_scoreProfile_iff]
  simp only [filterMapM_eq_ok_iff]
  constructor
  · rintro ⟨scored, ⟨hall, rfl⟩, rfl⟩
    exact ⟨hall, filter_scores hall⟩
  · rintro ⟨hall, rfl⟩
    exact ⟨_, ⟨hall, rfl⟩, filter_scores hall⟩

/-- A ranking that is not refused is the one of what signals say. -/
theorem rank_eq_ok_iff {ds : List Detected} :
    rank homes c settings profiles = .ok ds
      ↔ (settings.checkIncludeIf = true →
          ∀ p ∈ profiles, ¬Stumbles homes c p)
        ∧ ds = ranking homes c settings profiles := by
  unfold rank ranking
  rw [map_eq_ok_iff]
  simp only [candidates_eq_ok_iff]
  constructor
  · rintro ⟨found, ⟨hclear, rfl⟩, rfl⟩
    exact ⟨hclear, rfl⟩
  · rintro ⟨hclear, rfl⟩
    exact ⟨_, ⟨hclear, rfl⟩, rfl⟩

/-- A ranking is refused exactly if entries are looked at and a profile
stumbles over one. -/
theorem rank_eq_error_iff :
    rank homes c settings profiles = .error defect
      ↔ defect = .nullByte ∧ settings.checkIncludeIf = true
        ∧ ∃ p ∈ profiles, Stumbles homes c p := by
  have hon : .includeIfDir ∈ Signal.enabled settings
      ↔ settings.checkIncludeIf = true := mem_enabled_iff
  unfold rank candidates
  rw [map_eq_error_iff, map_eq_error_iff,
    filterMapM_eq_error_iff_exists fun p _ defect' h =>
      (scoreProfile_eq_error_iff.1 h).1]
  refine and_congr_right fun _ => ?_
  simp only [scoreProfile_eq_error_iff, true_and, hon]
  constructor
  · rintro ⟨p, hp, hchecked, hstumbles⟩
    exact ⟨hchecked, p, hp, hstumbles⟩
  · rintro ⟨hchecked, p, hp, hstumbles⟩
    exact ⟨p, hp, hchecked, hstumbles⟩

end GitPersona.Detection
