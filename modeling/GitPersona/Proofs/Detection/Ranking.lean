/-
What a ranking holds, said without sorting. Scoring keeps the signals
that fire, in evaluation order (`forall₂_firing`), and takes the
greatest of their confidences (`score?_spec`), so a profile reaches the
floor exactly when one of its signals does (`reaches_iff`). Ranking then
places each such profile once (`Proofs/Sorting.lean`), by a key that is a
key because confidences are numbers after clamping
(`Proofs/Number/Order.lean`). `rank_spec` says so of every ranking there
is, and that there is one unless a profile stumbles over an entry that
the system refuses (`Proofs/Detection/Scanning.lean`).

# Another floor

Nothing in a result tells the floor it had to reach, so a higher floor
drops results and changes none. Dropped before the sort, they are
missing from the end of the ranking only (`rank_raised`).
-/
import GitPersona.Proofs.Detection.Scanning
import GitPersona.Proofs.Sorting
import Mathlib.Data.List.Forall2
import Mathlib.Data.String.Basic

namespace GitPersona.Detection

open Number (FirstGreatest IsNumber line)

variable {homes : Homes} {c : Context} {settings : DetectionSettings}
  {p : Profile} {profiles : List Profile}

-- ================================================ statement vocabulary

/-- The order in which signals are evaluated: by tier, highest first, then
as they are declared. -/
def Signal.EvaluatedBefore (a b : Signal) : Prop :=
  b.tier.level < a.tier.level ∨ b.tier = a.tier ∧ a.ctorIdx < b.ctorIdx

instance (a b : Signal) : Decidable (a.EvaluatedBefore b) :=
  inferInstanceAs (Decidable (_ ∨ _))

/-- A signal fires for a profile with a finding. -/
def Signal.Fires (homes : Homes) (c : Context) (p : Profile) (s : Signal)
    (f : Finding) : Prop :=
  s.evaluate homes c p = .ok (some f)

/-- A signal fires as this rule. -/
structure Signal.FiresAs (homes : Homes) (c : Context) (p : Profile)
    (s : Signal) (r : Fired) : Prop where
  name : r.name = s.name
  tier : r.tier = s.tier
  finding : ∃ f, s.Fires homes c p f
    ∧ r.confidence = clamp f.confidence ∧ r.evidence = f.evidence

/-- A detection is what a profile scores: the signals that are on and fire
stand in it in evaluation order, as rules and as reasons, with the
greatest of their confidences. -/
structure Detected.IsScore (homes : Homes) (c : Context)
    (settings : DetectionSettings) (p : Profile) (d : Detected) : Prop where
  profile : d.profile = p
  fired : ∃ signals : List Signal, signals.Pairwise Signal.EvaluatedBefore
    ∧ (∀ s, s ∈ signals
        ↔ s.isOn settings = true ∧ ∃ f, s.Fires homes c p f)
    ∧ List.Forall₂ (Signal.FiresAs homes c p) signals d.fired
    ∧ List.Forall₂
        (fun s reason => ∃ f, s.Fires homes c p f ∧ reason = f.evidence)
        signals d.reasons
  attained : ∃ r ∈ d.fired, r.confidence = d.confidence
  greatest : ∀ r ∈ d.fired, r.confidence ≤ d.confidence

/-- Some signal that is on fires for the profile and reaches the floor. -/
def Qualifies (homes : Homes) (c : Context) (settings : DetectionSettings)
    (p : Profile) : Prop :=
  ∃ s f, Signal.isOn settings s = true ∧ s.Fires homes c p f
    ∧ settings.minConfidence ≤ clamp f.confidence

-- ============================================================== scoring

/-- The enabled signals stand in the order in which they are evaluated. -/
theorem pairwise_enabled (settings : DetectionSettings) :
    (Signal.enabled settings).Pairwise Signal.EvaluatedBefore := by
  have hall : Signal.all.Pairwise Signal.EvaluatedBefore := by decide
  exact hall.filter _

/-- A signal is known by its name. -/
theorem ofName?_name (s : Signal) : Signal.ofName? s.name = some s := by
  cases s <;> rfl

/-- The rules that fire are the signals that fire, one for one. -/
theorem forall₂_firing (homes : Homes) (c : Context) (p : Profile)
    (signals : List Signal) :
    List.Forall₂ (Signal.FiresAs homes c p)
      (signals.filter fun s => (finding? homes c p s).isSome)
      (firing homes c p signals) := by
  induction signals with
  | nil => exact List.Forall₂.nil
  | cons s signals ih =>
      rw [firing, List.filterMap_cons, List.filter_cons]
      cases hs : finding? homes c p s with
      | none => exact ih
      | some f =>
          have hfires := finding?_eq_some_iff.1 hs
          exact List.Forall₂.cons ⟨rfl, rfl, f, hfires, rfl, rfl⟩ ih

/-- A fired rule comes from a signal that fires. -/
theorem exists_signal_of_mem_firing {signals : List Signal} {r : Fired}
    (h : r ∈ firing homes c p signals) :
    ∃ s ∈ signals, ∃ f, s.Fires homes c p f ∧ r = s.rule f := by
  obtain ⟨s, hs, hr⟩ := List.mem_filterMap.1 h
  obtain ⟨f, hf, rfl⟩ := Option.map_eq_some_iff.1 hr
  exact ⟨s, hs, f, finding?_eq_some_iff.1 hf, rfl⟩

/-- A signal that fires gives a rule. -/
theorem mem_firing {signals : List Signal} {s : Signal} {f : Finding}
    (hs : s ∈ signals) (hf : s.Fires homes c p f) :
    s.rule f ∈ firing homes c p signals := by
  refine List.mem_filterMap.2 ⟨s, hs, ?_⟩
  rw [finding?_eq_some_iff.2 hf, Option.map_some]

/-- The confidence of a rule that fires is a number. -/
theorem isNumber_of_mem_firing {signals : List Signal} {r : Fired}
    (h : r ∈ firing homes c p signals) : IsNumber r.confidence := by
  obtain ⟨s, -, f, -, rfl⟩ := exists_signal_of_mem_firing h
  exact Number.isNumber_clamp f.confidence

/-- The confidence of a score is that of the first rule that has
the greatest. -/
theorem exists_firstGreatest {signals : List Signal} {confidence : Float}
    (h : greatestConfidence (firing homes c p signals) = some confidence) :
    ∃ r, r.confidence = confidence
      ∧ FirstGreatest (fun r : Fired => line r.confidence)
          (firing homes c p signals) r := by
  have hnumber : ∀ x ∈ (firing homes c p signals).map (·.confidence),
      IsNumber x := by
    intro x hx
    obtain ⟨r, hr, rfl⟩ := List.mem_map.1 hx
    exact isNumber_of_mem_firing hr
  have hfirst := Number.firstGreatest_of_firstMax line
    (fun a _ b hb => decide_eq_true_iff.trans (hnumber b hb).lt_iff) h
  obtain ⟨r, rfl, hgreatest⟩ := hfirst.exists_of_map
  exact ⟨r, rfl, hgreatest⟩

/-- The confidence of a score is the greatest among the rules that fired. -/
theorem greatestConfidence_spec {signals : List Signal}
    {confidence : Float}
    (h : greatestConfidence (firing homes c p signals) = some confidence) :
    (∃ r ∈ firing homes c p signals, r.confidence = confidence)
      ∧ ∀ r ∈ firing homes c p signals, r.confidence ≤ confidence := by
  obtain ⟨first, rfl, hgreatest⟩ := exists_firstGreatest h
  refine ⟨⟨first, hgreatest.mem, rfl⟩, fun r hr => ?_⟩
  exact (isNumber_of_mem_firing hr).le_iff.2 (hgreatest.le hr)

/-- What scoring gives is a score. -/
theorem score?_spec {d : Detected}
    (h : score? homes c (Signal.enabled settings) p = some d) :
    d.IsScore homes c settings p := by
  obtain ⟨confidence, hgreatest, rfl⟩ := Option.map_eq_some_iff.1 h
  obtain ⟨hattained, htop⟩ := greatestConfidence_spec hgreatest
  have hfired := forall₂_firing homes c p (Signal.enabled settings)
  refine ⟨rfl, ⟨_, (pairwise_enabled settings).filter _, fun s => ?_,
    hfired, ?_⟩, hattained, htop⟩
  · rw [List.mem_filter, mem_enabled_iff, Option.isSome_iff_exists]
    simp only [finding?_eq_some_iff, Signal.Fires]
  · rw [Detected.reasons, List.forall₂_map_right_iff]
    exact hfired.imp fun s r hr =>
      let ⟨f, hf, _, hevidence⟩ := hr.finding
      ⟨f, hf, hevidence⟩

/-- A score reaches a floor exactly when a rule that fired reaches it. -/
theorem exists_score_iff {signals : List Signal} {floor : Float} :
    (∃ d, score? homes c signals p = some d ∧ floor ≤ d.confidence)
      ↔ ∃ r ∈ firing homes c p signals, floor ≤ r.confidence := by
  constructor
  · rintro ⟨d, hscore, hfloor⟩
    obtain ⟨confidence, hgreatest, rfl⟩ := Option.map_eq_some_iff.1 hscore
    obtain ⟨⟨r, hr, hconfidence⟩, -⟩ := greatestConfidence_spec hgreatest
    refine ⟨r, hr, ?_⟩
    rw [hconfidence]
    exact hfloor
  · rintro ⟨r, hr, hfloor⟩
    cases hgreatest : greatestConfidence (firing homes c p signals) with
    | none =>
        rw [greatestConfidence, Number.firstMax_eq_none_iff,
          List.map_eq_nil_iff] at hgreatest
        rw [hgreatest] at hr
        cases hr
    | some confidence =>
        obtain ⟨-, htop⟩ := greatestConfidence_spec hgreatest
        obtain ⟨d, hscore, rfl⟩ : ∃ d, score? homes c signals p = some d
            ∧ d.confidence = confidence :=
          ⟨_, Option.map_eq_some_iff.2 ⟨confidence, hgreatest, rfl⟩, rfl⟩
        exact ⟨d, hscore, Number.le_trans hfloor (htop r hr)⟩

/-- A profile has a score that reaches the floor exactly when one of its
signals reaches it. -/
theorem reaches_iff :
    (∃ d, score? homes c (Signal.enabled settings) p = some d
        ∧ settings.minConfidence ≤ d.confidence)
      ↔ Qualifies homes c settings p := by
  rw [exists_score_iff]
  constructor
  · rintro ⟨r, hr, hfloor⟩
    obtain ⟨s, hs, f, hf, rfl⟩ := exists_signal_of_mem_firing hr
    exact ⟨s, f, mem_enabled_iff.1 hs, hf, hfloor⟩
  · rintro ⟨s, f, hon, hf, hfloor⟩
    exact ⟨_, mem_firing (mem_enabled_iff.2 hon) hf, hfloor⟩

-- ============================================================== ranking

/-- The outcome of a profile is a score that reaches the floor. -/
theorem outcome?_eq_some_iff {d : Detected} :
    outcome? homes c settings p = some d
      ↔ score? homes c (Signal.enabled settings) p = some d
        ∧ settings.minConfidence ≤ d.confidence := by
  rw [outcome?, Option.filter_eq_some_iff, decide_eq_true_eq]

/-- The confidence of an outcome is a number. -/
theorem isNumber_of_outcome? {d : Detected}
    (h : outcome? homes c settings p = some d) : IsNumber d.confidence :=
  (Number.isNumber_of_le (outcome?_eq_some_iff.1 h).2).2

/-- An outcome is of its profile. -/
theorem profile_of_outcome? {d : Detected}
    (h : outcome? homes c settings p = some d) : d.profile = p :=
  (score?_spec (outcome?_eq_some_iff.1 h).1).profile

/-- A ranking holds the outcomes of the profiles. -/
theorem mem_ranking_iff {d : Detected} : d ∈ ranking homes c settings profiles
    ↔ ∃ p ∈ profiles, outcome? homes c settings p = some d := by
  rw [ranking, List.mem_mergeSort, List.mem_filterMap]

/-- A ranking is the outcomes of the profiles in their places. -/
theorem ranking_eq (profiles : List Profile) :
    ranking homes c settings profiles
      = (Sorting.placements (outcome? homes c settings)
          (Sorting.standing Detected.confidence (·.profile.name))
          profiles).map Prod.snd :=
  Sorting.mergeSort_eq_placements Detected.confidence (·.profile.name)
    (fun _ _ => rfl) fun _ _ => isNumber_of_outcome?

/-- A ranking holds one score for each position of a profile that
qualifies, and nothing else: the greatest confidence first, equal ones by
name, and those alike in both in the order they came. There is a ranking
unless entries are looked at and some profile stumbles over one. -/
theorem rank_spec (homes : Homes) (c : Context)
    (settings : DetectionSettings) (profiles : List Profile) :
    (∀ defect, rank homes c settings profiles = .error defect
        ↔ defect = .nullByte ∧ settings.checkIncludeIf = true
          ∧ ∃ p ∈ profiles, Stumbles homes c p)
      ∧ ∀ ranked, rank homes c settings profiles = .ok ranked →
        ∃ placed : List (Nat × Detected),
          placed.map Prod.snd = ranked
            ∧ (placed.map Prod.fst).Nodup
            ∧ (∀ i, i ∈ placed.map Prod.fst
                ↔ ∃ p, profiles[i]? = some p
                  ∧ Qualifies homes c settings p)
            ∧ (∀ i d, (i, d) ∈ placed → ∃ p, profiles[i]? = some p
                ∧ d.IsScore homes c settings p)
            ∧ placed.Pairwise fun x y => x.2.confidence > y.2.confidence
                ∨ (x.2.confidence == y.2.confidence) = true
                  ∧ (x.2.profile.name < y.2.profile.name
                    ∨ x.2.profile.name = y.2.profile.name
                      ∧ x.1 < y.1) := by
  refine ⟨fun defect => rank_eq_error_iff, fun ranked hranked => ?_⟩
  obtain ⟨-, rfl⟩ := rank_eq_ok_iff.1 hranked
  have hmem : ∀ {i d}, (i, d) ∈ Sorting.placements
      (outcome? homes c settings)
      (Sorting.standing Detected.confidence (·.profile.name)) profiles
      ↔ ∃ p, profiles[i]? = some p
        ∧ score? homes c (Signal.enabled settings) p = some d
        ∧ settings.minConfidence ≤ d.confidence := by
    intro i d
    simp only [Sorting.mem_placements_iff, outcome?_eq_some_iff]
  refine ⟨_, (ranking_eq profiles).symm, Sorting.nodup_placements _ _ _,
    fun i => ?_, fun i d h => ?_,
    Sorting.pairwise_standing Detected.confidence (·.profile.name)
      fun _ _ => isNumber_of_outcome?⟩
  · rw [List.mem_map]
    constructor
    · rintro ⟨⟨_, d⟩, h, rfl⟩
      obtain ⟨p, hp, hd⟩ := hmem.1 h
      exact ⟨p, hp, reaches_iff.1 ⟨d, hd⟩⟩
    · rintro ⟨p, hp, hqualifies⟩
      obtain ⟨d, hd⟩ := reaches_iff.2 hqualifies
      exact ⟨(i, d), hmem.2 ⟨p, hp, hd⟩, rfl⟩
  · obtain ⟨p, hp, hscore, -⟩ := hmem.1 h
    exact ⟨p, hp, score?_spec hscore⟩

/-- The directory of a machine named `box`. -/
def boxRoot : Context :=
  { workingDir := Path.root, hostname := "box" }

/-- A profile for the machine, with an entry that starts with the tilde of
a user whose name holds a NUL. -/
def nulUserProfile : Profile :=
  { name := "box", email := "a@box.example", hostPatterns := ["box"]
    includeIfDirs := ["~a\x00b"] }

/-- The profile stumbles over its only entry. -/
theorem stumbles_nulUser :
    Stumbles Path.adaAndBob boxRoot nulUserProfile := by
  exact ⟨[], "~a\x00b", [], rfl, by simp, Path.refused_userWithNul _⟩

/-- The profile qualifies by the name of the machine, and there
is no ranking. -/
theorem rank_of_nulUser :
    Qualifies Path.adaAndBob boxRoot {} nulUserProfile
      ∧ rank Path.adaAndBob boxRoot {} [nulUserProfile]
        = .error .nullByte := by
  constructor
  · exact ⟨.hostname, _, rfl, rfl, by decide +kernel⟩
  · exact rank_eq_error_iff.2
      ⟨rfl, rfl, _, List.mem_singleton.2 rfl, stumbles_nulUser⟩

-- ======================================================== another floor

/-- The floor does not decide which signals are on. -/
theorem enabled_withFloor (settings : DetectionSettings) (floor : Float) :
    Signal.enabled { settings with minConfidence := floor }
      = Signal.enabled settings := by
  unfold Signal.enabled
  apply List.filter_congr
  intro s _
  cases s <;> rfl

/-- A higher floor drops outcomes of a lower one. -/
theorem outcome?_raised {low high : Float} (h : low ≤ high) (p : Profile) :
    outcome? homes c { settings with minConfidence := high } p
      = (outcome? homes c { settings with minConfidence := low } p).filter
          (·.confidence ≥ high) := by
  unfold outcome?
  rw [enabled_withFloor, enabled_withFloor, Option.filter_filter]
  congr 1
  funext d
  show decide (high ≤ d.confidence)
    = (decide (low ≤ d.confidence) && decide (high ≤ d.confidence))
  by_cases hhigh : high ≤ d.confidence
  · simp [hhigh, Number.le_trans h hhigh]
  · simp [hhigh]

/-- A higher floor cuts the ranking off where it is reached no more. -/
theorem ranking_raised {low high : Float} (h : low ≤ high) :
    ∃ tail, ranking homes c { settings with minConfidence := low } profiles
        = ranking homes c { settings with minConfidence := high } profiles
          ++ tail
      ∧ (∀ d ∈ ranking homes c { settings with minConfidence := high }
          profiles, high ≤ d.confidence)
      ∧ ∀ d ∈ tail, d.confidence < high := by
  obtain ⟨tail, hcut, hbelow⟩ := Sorting.placements_floor (l := profiles)
    Detected.confidence (·.profile.name)
    (f := outcome? homes c { settings with minConfidence := low })
    (fun _ _ => isNumber_of_outcome?) (Number.isNumber_of_le h).2
  refine ⟨tail.map Prod.snd, ?_, fun d hd => ?_, fun d hd => ?_⟩
  · rw [ranking_eq, ranking_eq, hcut, List.map_append,
      funext (outcome?_raised h)]
  · obtain ⟨p, -, houtcome⟩ := mem_ranking_iff.1 hd
    exact (outcome?_eq_some_iff.1 houtcome).2
  · obtain ⟨x, hx, rfl⟩ := List.mem_map.1 hd
    exact hbelow x hx

/-- Raising the floor only cuts the ranking short: what is left is the
start of it, as it was, up to the first result below the new floor. It
does not decide whether there is a ranking. -/
theorem rank_raised (homes : Homes) (c : Context)
    (settings : DetectionSettings) (profiles : List Profile)
    {low high : Float} (h : low ≤ high) :
    (∀ defect,
        rank homes c { settings with minConfidence := high } profiles
            = .error defect
          ↔ rank homes c { settings with minConfidence := low } profiles
            = .error defect)
      ∧ ∀ longer,
        rank homes c { settings with minConfidence := low } profiles
          = .ok longer →
        ∃ shorter tail,
          rank homes c { settings with minConfidence := high } profiles
              = .ok shorter
            ∧ longer = shorter ++ tail
            ∧ (∀ d ∈ shorter, high ≤ d.confidence)
            ∧ ∀ d ∈ tail, d.confidence < high := by
  refine ⟨fun defect => ?_, fun longer hlonger => ?_⟩
  · rw [rank_eq_error_iff, rank_eq_error_iff]
  obtain ⟨hclear, rfl⟩ := rank_eq_ok_iff.1 hlonger
  obtain ⟨tail, hcut, hreach, hbelow⟩ := ranking_raised h
  exact ⟨_, tail, rank_eq_ok_iff.2 ⟨hclear, rfl⟩, hcut, hreach, hbelow⟩

/-- Two profiles that a host name fits, the first of them by a
pattern only. -/
def anyAndBox : List Profile :=
  [{ name := "any", email := "a@any.example", hostPatterns := ["b*"] },
    { name := "box", email := "a@box.example", hostPatterns := ["box"] }]

/-- What a sequence of detections shows: whose they are, and how
sure they make. -/
def standings (ds : List Detected) : List (String × Float) :=
  ds.map fun d => (d.profile.name, d.confidence)

/-- A floor between the two confidences. -/
theorem rank_raised_anyAndBox :
    (0.6 : Float) ≤ 0.8
      ∧ (candidates Path.adaAndBob boxRoot { minConfidence := 0.6 }
          anyAndBox).map standings = .ok [("any", 0.7), ("box", 0.9)]
      ∧ ∃ longer shorter tail,
        rank Path.adaAndBob boxRoot { minConfidence := 0.6 } anyAndBox
            = .ok longer
          ∧ rank Path.adaAndBob boxRoot { minConfidence := 0.8 } anyAndBox
            = .ok shorter
          ∧ longer = shorter ++ tail ∧ ∀ d ∈ tail, d.confidence < 0.8 := by
  have hfloors : (0.6 : Float) ≤ 0.8 := by decide
  obtain ⟨-, hcut⟩ :=
    rank_raised Path.adaAndBob boxRoot {} anyAndBox hfloors
  have hlonger : ∃ longer,
      rank Path.adaAndBob boxRoot { minConfidence := 0.6 } anyAndBox
        = .ok longer := by
    have hentries : ∀ p ∈ anyAndBox, p.includeIfDirs = [] := by decide
    exact ⟨_, rank_eq_ok_iff.2
      ⟨fun _ p hp => not_stumbles_of_nil (hentries p hp), rfl⟩⟩
  obtain ⟨longer, hlonger⟩ := hlonger
  obtain ⟨shorter, tail, hshorter, hsplit, -, hbelow⟩ := hcut _ hlonger
  exact ⟨hfloors, by decide +kernel, longer, shorter, tail, hlonger,
    hshorter, hsplit, hbelow⟩

end GitPersona.Detection
