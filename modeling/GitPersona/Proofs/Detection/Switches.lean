/-
Switching signals off. What a signal that is off would have said is
missing from a score, and nothing else is (`firing_without`), so a
confidence can only fall (`confidence_without_le`) and a profile stays in
the ranking exactly when one of the rules that are left reaches the floor
(`profiles_ranking_perm`).

# Nothing left to see

Each signal reads its own part of the context and its own list of the
profile; `remoteUrl` and `gitConfig` read different keys of the one local
configuration. `SeesAlike` and `ConsultsAlike` say for each signal what
that part is. Two runs that agree in the parts of the signals that are on
cannot be told apart in the ranking (`rank_shown_eq`), however much they
differ in what only the others read.

# More than evidence

One thing more goes with the signal on directories: an entry that a
profile stumbles over ends the whole ranking, so switching that signal off
can bring a ranking about (`rank_of_switched_off`).
-/
import GitPersona.Proofs.Detection.Ranking
import GitPersona.Proofs.Detection.Observation

namespace GitPersona

-- ================================================== statement vocabulary

/-- The settings with some signals switched off and everything
else as it was. -/
def DetectionSettings.without (settings : DetectionSettings)
    (off : Detection.Signal → Bool) : DetectionSettings :=
  { settings with
    checkRemoteUrl := settings.checkRemoteUrl && !off .remoteUrl
    checkIncludeIf := settings.checkIncludeIf && !off .includeIfDir
    checkDirectory := settings.checkDirectory && !off .directoryPath
    checkHostname := settings.checkHostname && !off .hostname
    checkGitConfig := settings.checkGitConfig && !off .gitConfig }

namespace Detection

/-- The rule comes from a signal that is not switched off. -/
def Fired.isLeft (off : Signal → Bool) (r : Fired) : Bool :=
  (Signal.ofName? r.name).any fun s => !off s

/-- Two contexts agree in what a signal reads of them. -/
def Signal.SeesAlike (c d : Context) : Signal → Prop
  | .remoteUrl => (∀ name, c.remotes.get? name = d.remotes.get? name)
      ∧ ∀ name, (d.remotes.get? name).isSome = true →
        c.localConfig.get? ("remote." ++ name ++ ".pushurl")
          = d.localConfig.get? ("remote." ++ name ++ ".pushurl")
  | .includeIfDir => c.workingDir = d.workingDir
  | .directoryPath => c.workingDir = d.workingDir
  | .hostname => c.hostname = d.hostname
  | .gitConfig =>
    c.localConfig.get? "user.email" = d.localConfig.get? "user.email"
      ∧ c.localConfig.get? "user.name" = d.localConfig.get? "user.name"

/-- Two profiles agree in what a signal reads of them. -/
def Signal.ConsultsAlike (p q : Profile) : Signal → Prop
  | .remoteUrl => p.repos = q.repos
  | .includeIfDir => p.includeIfDirs = q.includeIfDirs
  | .directoryPath => p.matchPatterns = q.matchPatterns
  | .hostname => p.hostPatterns = q.hostPatterns
  | .gitConfig => p.email = q.email ∧ p.userName = q.userName

/-- What a ranking shows of a result: the name, the confidence, and the
rules with their evidence. -/
def Detected.shown (d : Detected) : String × Float × List Fired :=
  (d.profile.name, d.confidence, d.fired)

variable {homes : Homes} {c d : Context} {settings : DetectionSettings}
  {p q : Profile} {off : Signal → Bool}

-- =============================================================== signals

/-- A signal is on when it was and is not switched off. -/
theorem isOn_without (settings : DetectionSettings) (off : Signal → Bool)
    (s : Signal) :
    s.isOn (settings.without off) = (s.isOn settings && !off s) := by
  cases s <;> rfl

/-- The signals left are those that are not switched off. -/
theorem enabled_without (settings : DetectionSettings)
    (off : Signal → Bool) :
    Signal.enabled (settings.without off)
      = (Signal.enabled settings).filter fun s => !off s := by
  unfold Signal.enabled
  rw [List.filter_filter]
  apply List.filter_congr
  intro s _
  rw [isOn_without, Bool.and_comm]

/-- What is left was on before. -/
theorem mem_enabled_of_without {s : Signal}
    (h : s ∈ Signal.enabled (settings.without off)) :
    s ∈ Signal.enabled settings := by
  rw [enabled_without] at h
  exact List.mem_of_mem_filter h

-- =========================================================== one profile

/-- Of the rules that fire, those from other signals are left,
as they were. -/
theorem firing_filter (off : Signal → Bool) (signals : List Signal) :
    firing homes c p (signals.filter fun s => !off s)
      = (firing homes c p signals).filter (Fired.isLeft off) := by
  unfold firing
  rw [List.filterMap_filter, List.filter_filterMap]
  apply List.filterMap_congr
  intro s _
  cases hs : finding? homes c p s with
  | none => simp
  | some f =>
      have hleft : Fired.isLeft off (s.rule f) = !off s := by
        unfold Fired.isLeft Signal.rule
        rw [ofName?_name]
        rfl
      by_cases hoff : off s = true
      · simp [hoff, hleft, Option.filter]
      · simp [hoff, hleft, Option.filter]

/-- What is left of the rules that fire are those of the signals left. -/
theorem firing_without (off : Signal → Bool) :
    firing homes c p (Signal.enabled (settings.without off))
      = (firing homes c p (Signal.enabled settings)).filter
          (Fired.isLeft off) := by
  rw [enabled_without]
  exact firing_filter off (Signal.enabled settings)

/-- Where the rules that fire are known, so are those of fewer signals. -/
theorem firedRules_without {full : List Fired}
    (h : firedRules homes c p (Signal.enabled settings) = .ok full) :
    firedRules homes c p (Signal.enabled (settings.without off))
      = .ok (full.filter (Fired.isLeft off)) := by
  obtain ⟨hclear, rfl⟩ := firedRules_eq_ok_iff.1 h
  exact firedRules_eq_ok_iff.2
    ⟨fun hon => hclear (mem_enabled_of_without hon),
      (firing_without off).symm⟩

/-- With signals switched off, a score has no more confidence than it had. -/
theorem confidence_without_le {less : Detected}
    (h : score? homes c (Signal.enabled (settings.without off)) p
      = some less) :
    ∃ full, score? homes c (Signal.enabled settings) p = some full
      ∧ less.confidence ≤ full.confidence := by
  obtain ⟨r, hr, hconfidence⟩ := (score?_spec h).attained
  have hfired : less.fired
      = firing homes c p (Signal.enabled (settings.without off)) := by
    obtain ⟨confidence, -, rfl⟩ := Option.map_eq_some_iff.1 h
    rfl
  rw [hfired, firing_without, List.mem_filter] at hr
  have hself : less.confidence ≤ r.confidence := by
    rw [hconfidence]
    have hnumber :=
      (Number.isNumber_of_le ((score?_spec h).greatest r ?_)).2
    · exact hnumber.le_iff.2 le_rfl
    · rw [hfired, firing_without, List.mem_filter]
      exact hr
  exact exists_score_iff.2 ⟨r, hr.1, hself⟩

/-- Switching signals off raises no confidence. -/
theorem scoreProfile_without {full : Option Detected}
    (h : scoreProfile homes c (Signal.enabled settings) p = .ok full) :
    ∃ less, scoreProfile homes c (Signal.enabled (settings.without off)) p
        = .ok less
      ∧ ∀ d ∈ less, ∃ d' ∈ full, d.confidence ≤ d'.confidence := by
  obtain ⟨hclear, rfl⟩ := scoreProfile_eq_ok_iff.1 h
  refine ⟨_, scoreProfile_eq_ok_iff.2
    ⟨fun hon => hclear (mem_enabled_of_without hon), rfl⟩, fun d hd => ?_⟩
  obtain ⟨d', hd', hle⟩ := confidence_without_le hd
  exact ⟨d', hd', hle⟩

-- ========================================================== all profiles

/-- The profiles that have an outcome are those for which some rule
reaches the floor. -/
theorem profiles_outcomes (profiles : List Profile) :
    (profiles.filterMap (outcome? homes c settings)).map (·.profile)
      = profiles.filter fun p =>
          (firing homes c p (Signal.enabled settings)).any
            fun r => decide (settings.minConfidence ≤ r.confidence) := by
  rw [List.map_filterMap, ← List.filterMap_eq_filter]
  apply List.filterMap_congr
  intro p _
  cases hp : outcome? homes c settings p with
  | none =>
      have hnone : ¬∃ r ∈ firing homes c p (Signal.enabled settings),
          settings.minConfidence ≤ r.confidence := by
        intro hfired
        obtain ⟨d, hd⟩ := exists_score_iff.2 hfired
        rw [outcome?_eq_some_iff.2 hd] at hp
        cases hp
      simpa [Option.guard] using hnone
  | some d =>
      have hsome := exists_score_iff.1 ⟨d, outcome?_eq_some_iff.1 hp⟩
      simpa [Option.guard, profile_of_outcome? hp] using hsome

/-- A profile stands in a ranking once for each of its positions if one of
its rules reaches the floor, and not at all if none does. -/
theorem profiles_rank_perm {profiles : List Profile}
    {ranked : List Detected}
    (h : rank homes c settings profiles = .ok ranked) :
    ∃ fired : Profile → List Fired,
      (∀ p ∈ profiles, firedRules homes c p (Signal.enabled settings)
        = .ok (fired p))
      ∧ (ranked.map (·.profile)).Perm (profiles.filter fun p =>
          (fired p).any fun r =>
            decide (settings.minConfidence ≤ r.confidence)) := by
  obtain ⟨hclear, rfl⟩ := rank_eq_ok_iff.1 h
  refine ⟨fun p => firing homes c p (Signal.enabled settings),
    fun p hp => ?_, ?_⟩
  · exact firedRules_eq_ok_iff.2
      ⟨fun hon => hclear (mem_enabled_iff.1 hon) p hp, rfl⟩
  · rw [← profiles_outcomes]
    exact (List.mergeSort_perm _ _).map _

/-- The ranking that is left is refused exactly where the other is, unless
the entries are no longer looked at. -/
theorem rank_without_eq_error_iff {profiles : List Profile}
    {defect : Path.Defect} :
    rank homes c (settings.without off) profiles = .error defect
      ↔ off .includeIfDir = false
        ∧ rank homes c settings profiles = .error defect := by
  have hon : (settings.without off).checkIncludeIf = true
      ↔ settings.checkIncludeIf = true ∧ off .includeIfDir = false := by
    simp [DetectionSettings.without]
  rw [rank_eq_error_iff, rank_eq_error_iff, hon]
  tauto

-- ============================================================== two runs

/-- A rule has the same outcome for all that reads alike. -/
theorem evaluate_eq_of_readsAlike {s : Signal} (hc : s.SeesAlike c d)
    (hp : s.ConsultsAlike p q) :
    s.evaluate homes c p = s.evaluate homes d q := by
  cases s with
  | remoteUrl =>
      obtain ⟨hremotes, hpush⟩ := hc
      have hsorted := Bindings.sorted_eq_iff.2 hremotes
      refine congrArg _
        (remoteUrl_congr (Context.remoteUrls_eq hsorted ?_) hp)
      -- a push address is asked for only where there is a remote
      intro e he
      have hname : d.remotes.get? e.1 = some e.2 :=
        Bindings.mem_sorted_iff.1 he
      unfold Context.pushUrl?
      rw [hpush e.1 (by rw [hname]; rfl)]
  | includeIfDir => exact includeIfDir_congr homes hc hp
  | directoryPath => exact congrArg _ (directoryPath_congr hc hp)
  | hostname => exact congrArg _ (hostname_congr hc hp)
  | gitConfig => exact congrArg _ (gitConfig_congr hc.1 hc.2 hp.1 hp.2)

/-- The same rules fire for all that reads alike. -/
theorem firing_eq_of_readsAlike {signals : List Signal}
    (hc : ∀ s ∈ signals, s.SeesAlike c d)
    (hp : ∀ s ∈ signals, s.ConsultsAlike p q) :
    firing homes c p signals = firing homes d q signals := by
  apply List.filterMap_congr
  intro s hs
  unfold finding?
  rw [evaluate_eq_of_readsAlike (hc s hs) (hp s hs)]

/-- A profile stumbles wherever one does that reads alike. -/
theorem stumbles_iff_of_readsAlike (homes : Homes)
    (hc : Signal.includeIfDir.SeesAlike c d)
    (hp : Signal.includeIfDir.ConsultsAlike p q) :
    Stumbles homes c p ↔ Stumbles homes d q := by
  unfold Stumbles
  rw [show p.includeIfDirs = q.includeIfDirs from hp,
    show c.workingDir = d.workingDir from hc]

/-- Outcomes made from the same readings show the same. -/
theorem outcome?_shown_eq (homes : Homes)
    (hc : ∀ s : Signal, s.isOn settings = true → s.SeesAlike c d)
    (hname : p.name = q.name)
    (hp : ∀ s : Signal, s.isOn settings = true → s.ConsultsAlike p q) :
    (outcome? homes c settings p).map Detected.shown
      = (outcome? homes d settings q).map Detected.shown := by
  have hfired : firing homes c p (Signal.enabled settings)
      = firing homes d q (Signal.enabled settings) := by
    apply firing_eq_of_readsAlike
    · intro s hs
      exact hc s (mem_enabled_iff.1 hs)
    · intro s hs
      exact hp s (mem_enabled_iff.1 hs)
  unfold outcome? score? assess
  rw [hfired]
  cases greatestConfidence
      (firing homes d q (Signal.enabled settings)) with
  | none => rfl
  | some confidence =>
      by_cases hfloor : settings.minConfidence ≤ confidence
      · simp [Option.filter, Detected.shown, hfloor, hname]
      · simp [Option.filter, hfloor]

section

variable {ps qs : List Profile}

/-- The outcomes of profiles that read alike show the same. -/
theorem outcomes_shown_eq
    (hc : ∀ s : Signal, s.isOn settings = true → s.SeesAlike c d)
    (hps : List.Forall₂ (fun p q : Profile => p.name = q.name
      ∧ ∀ s : Signal, s.isOn settings = true → s.ConsultsAlike p q)
      ps qs) :
    (ps.filterMap (outcome? homes c settings)).map Detected.shown
      = (qs.filterMap (outcome? homes d settings)).map Detected.shown := by
  rw [List.map_filterMap, List.map_filterMap]
  induction hps with
  | nil => rfl
  | cons hpq _ ih =>
      obtain ⟨hname, hconsults⟩ := hpq
      have hhead := outcome?_shown_eq homes hc hname hconsults
      rw [List.filterMap_cons, List.filterMap_cons, hhead, ih]

/-- The rankings of profiles that read alike show the same. -/
theorem ranking_shown_eq
    (hc : ∀ s : Signal, s.isOn settings = true → s.SeesAlike c d)
    (hps : List.Forall₂ (fun p q : Profile => p.name = q.name
      ∧ ∀ s : Signal, s.isOn settings = true → s.ConsultsAlike p q)
      ps qs) :
    (ranking homes c settings ps).map Detected.shown
      = (ranking homes d settings qs).map Detected.shown := by
  have hsort : ∀ ds : List Detected,
      (ds.mergeSort Detected.precedes).map Detected.shown
        = (ds.map Detected.shown).mergeSort fun x y =>
          x.2.1 > y.2.1 || (x.2.1 == y.2.1 && decide (x.1 ≤ y.1)) := by
    intro ds
    exact List.map_mergeSort fun _ _ _ _ => rfl
  rw [ranking, ranking, hsort, hsort, outcomes_shown_eq hc hps]

/-- One of some profiles stumbles when one of those does that read alike. -/
theorem exists_stumbles_iff (hon : settings.checkIncludeIf = true)
    (hc : ∀ s : Signal, s.isOn settings = true → s.SeesAlike c d)
    (hps : List.Forall₂ (fun p q : Profile => p.name = q.name
      ∧ ∀ s : Signal, s.isOn settings = true → s.ConsultsAlike p q)
      ps qs) :
    (∃ p ∈ ps, Stumbles homes c p) ↔ ∃ q ∈ qs, Stumbles homes d q := by
  induction hps with
  | nil => simp
  | cons hpq _ ih =>
      have hhead := stumbles_iff_of_readsAlike homes
        (hc .includeIfDir hon) (hpq.2 .includeIfDir hon)
      simp only [List.mem_cons, exists_eq_or_imp, hhead, ih]

/-- Of two runs that agree in everything that the signals that are on
read, the rankings show the same, or both are refused: the sort looks at
nothing else either. -/
theorem rank_shown_eq
    (hc : ∀ s : Signal, s.isOn settings = true → s.SeesAlike c d)
    (hps : List.Forall₂ (fun p q : Profile => p.name = q.name
      ∧ ∀ s : Signal, s.isOn settings = true → s.ConsultsAlike p q)
      ps qs) :
    (rank homes c settings ps).map (·.map Detected.shown)
      = (rank homes d settings qs).map (·.map Detected.shown) := by
  cases hranked : rank homes c settings ps with
  | error defect =>
      obtain ⟨hdefect, hon, hstumbles⟩ := rank_eq_error_iff.1 hranked
      have hother : rank homes d settings qs = .error defect :=
        rank_eq_error_iff.2
          ⟨hdefect, hon, (exists_stumbles_iff hon hc hps).1 hstumbles⟩
      rw [hother]
  | ok ranked =>
      obtain ⟨hclear, rfl⟩ := rank_eq_ok_iff.1 hranked
      have hother : rank homes d settings qs
          = .ok (ranking homes d settings qs) := by
        refine rank_eq_ok_iff.2 ⟨fun hon q hq hstumbles => ?_, rfl⟩
        obtain ⟨p, hp, hp'⟩ :=
          (exists_stumbles_iff hon hc hps).2 ⟨q, hq, hstumbles⟩
        exact hclear hon p hp hp'
      rw [hother]
      exact congrArg Except.ok (ranking_shown_eq hc hps)

end

-- =========================================================== main result

/-- Switching signals off takes away the rules that they gave and nothing
else. No confidence rises, and a profile stays in the ranking exactly when a
rule that is left reaches the floor. What only the signals that are off read,
of the context and of the profiles, cannot be told from the ranking. There is
a ranking unless entries are looked at and a profile stumbles over one. -/
theorem rank_without (homes : Homes) (c : Context)
    (settings : DetectionSettings) (off : Signal → Bool)
    (profiles : List Profile) :
    (∀ p full, firedRules homes c p (Signal.enabled settings) = .ok full →
        firedRules homes c p (Signal.enabled (settings.without off))
          = .ok (full.filter (Fired.isLeft off)))
      ∧ (∀ p full,
          scoreProfile homes c (Signal.enabled settings) p = .ok full →
          ∃ less,
            scoreProfile homes c (Signal.enabled (settings.without off)) p
                = .ok less
              ∧ ∀ d ∈ less, ∃ d' ∈ full, d.confidence ≤ d'.confidence)
      ∧ (∀ defect, rank homes c settings profiles = .error defect
          ↔ defect = .nullByte ∧ settings.checkIncludeIf = true
            ∧ ∃ p ∈ profiles, Stumbles homes c p)
      ∧ (∀ defect,
          rank homes c (settings.without off) profiles = .error defect
            ↔ off .includeIfDir = false
              ∧ rank homes c settings profiles = .error defect)
      ∧ (∀ left, rank homes c (settings.without off) profiles = .ok left →
          ∃ fired : Profile → List Fired,
            (∀ p ∈ profiles,
              firedRules homes c p (Signal.enabled (settings.without off))
                = .ok (fired p))
            ∧ (left.map (·.profile)).Perm (profiles.filter fun p =>
                (fired p).any fun r =>
                  decide (settings.minConfidence ≤ r.confidence)))
      ∧ ∀ (c' : Context) (profiles' : List Profile),
          (∀ s : Signal, s.isOn (settings.without off) = true →
            s.SeesAlike c c') →
          List.Forall₂ (fun p q : Profile => p.name = q.name
            ∧ ∀ s : Signal, s.isOn (settings.without off) = true →
              s.ConsultsAlike p q) profiles profiles' →
          (rank homes c (settings.without off) profiles).map
              (·.map Detected.shown)
            = (rank homes c' (settings.without off) profiles').map
              (·.map Detected.shown) := by
  refine ⟨?_, ?_, fun defect => rank_eq_error_iff,
    fun defect => rank_without_eq_error_iff, ?_, ?_⟩
  · intro p full h
    exact firedRules_without h
  · intro p full h
    exact scoreProfile_without h
  · intro left h
    exact profiles_rank_perm h
  · intro c' profiles' hc hps
    exact rank_shown_eq hc hps

/-- A directory with a remote and an identity. -/
def cloned : Context :=
  { workingDir := Path.parse "/home/ada/work/app"
    remotes := .ofList [("origin", "git@git.example:ada/app")]
    localConfig := .ofList [("user.email", "ada@work.example")]
    hostname := "box" }

/-- The same directory with neither. -/
def unknownClone : Context :=
  { cloned with remotes := ∅, localConfig := ∅ }

/-- A profile for the remote, the identity and the machine. -/
def workProfile : Profile :=
  { name := "work", email := "ada@work.example"
    repos := ["git@git.example:ada/*"], hostPatterns := ["box"] }

/-- The profile with another identity and for no remote. -/
def elseProfile : Profile :=
  { workProfile with email := "else@where.example", repos := [] }

/-- Settings with the two signals off that read remotes and identity. -/
def machineOnly : DetectionSettings :=
  .without {} (· ∈ [.remoteUrl, .gitConfig])

/-- With the two signals off that read remotes and identity, the machine
is all that counts, so their values could be any others. -/
theorem rank_cloned_eq_unknownClone :
    (scoreProfile Path.adaAndBob cloned (Signal.enabled {}) workProfile).map
        (·.map fun d => (d.confidence, d.fired.map (·.name)))
          = .ok (some (1.0, ["remote_url", "hostname", "git_config"]))
      ∧ (∀ s : Signal, s.isOn machineOnly = true →
          s.SeesAlike cloned unknownClone)
      ∧ List.Forall₂ (fun p q : Profile => p.name = q.name
          ∧ ∀ s : Signal, s.isOn machineOnly = true →
            s.ConsultsAlike p q) [workProfile] [elseProfile]
      ∧ (rank Path.adaAndBob cloned machineOnly [workProfile]).map
          (·.map Detected.shown)
        = (rank Path.adaAndBob unknownClone machineOnly [elseProfile]).map
          (·.map Detected.shown) := by
  have hc : ∀ s : Signal, s.isOn machineOnly = true →
      s.SeesAlike cloned unknownClone := by
    intro s hs
    cases s with
    | remoteUrl => cases hs
    | includeIfDir => rfl
    | directoryPath => rfl
    | hostname => rfl
    | gitConfig => cases hs
  have hps : List.Forall₂ (fun p q : Profile => p.name = q.name
      ∧ ∀ s : Signal, s.isOn machineOnly = true → s.ConsultsAlike p q)
      [workProfile] [elseProfile] := by
    refine List.Forall₂.cons ⟨rfl, ?_⟩ List.Forall₂.nil
    intro s hs
    cases s with
    | remoteUrl => cases hs
    | includeIfDir => rfl
    | directoryPath => rfl
    | hostname => rfl
    | gitConfig => cases hs
  obtain ⟨-, -, -, -, -, htwo⟩ := rank_without Path.adaAndBob cloned {}
    (· ∈ [.remoteUrl, .gitConfig]) [workProfile]
  exact ⟨by decide +kernel, hc, hps, htwo _ _ hc hps⟩

/-- Without the signal on directories there is a ranking, with it
there is none. -/
theorem rank_of_switched_off :
    rank Path.adaAndBob boxRoot {} [nulUserProfile] = .error .nullByte
      ∧ ∃ left, rank Path.adaAndBob boxRoot
          (.without {} (· ∈ [.includeIfDir])) [nulUserProfile]
        = .ok left := by
  constructor
  · exact rank_eq_error_iff.2
      ⟨rfl, rfl, _, List.mem_singleton.2 rfl, stumbles_nulUser⟩
  · exact ⟨_, rank_eq_ok_iff.2 ⟨fun hon => absurd hon (by decide), rfl⟩⟩

end Detection

end GitPersona
