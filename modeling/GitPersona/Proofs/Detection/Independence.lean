/-
Profiles do not influence each other. A result depends on its own
profile, so leaving profiles out leaves their results out and nothing
else changes, not even the order of the rest (`ranking_selected`): the
sort goes by the result, and between equal ones by position. Where no two
profiles share a name, positions do not count either, and the order in
which the profiles come cannot be seen in the ranking (`ranking_perm`).

There is one influence after all: a profile that stumbles over an entry
takes the ranking away from all others (`rank_beside_nulUser`).
-/
import GitPersona.Proofs.Detection.Ranking

namespace GitPersona.Detection

variable {homes : Homes} {c : Context} {settings : DetectionSettings}
  {profiles : List Profile}

-- ============================================================= outcomes

/-- Among profiles of different names, the standing of an outcome tells
whose it is. -/
theorem eq_of_standing_eq (hnames : (profiles.map (·.name)).Nodup)
    {a b : Detected}
    (ha : a ∈ profiles.filterMap (outcome? homes c settings))
    (hb : b ∈ profiles.filterMap (outcome? homes c settings))
    (h : Sorting.standing Detected.confidence (·.profile.name) a
      = Sorting.standing Detected.confidence (·.profile.name) b) :
    a = b := by
  obtain ⟨p, hp, hpa⟩ := List.mem_filterMap.1 ha
  obtain ⟨q, hq, hqb⟩ := List.mem_filterMap.1 hb
  have hname : a.profile.name = b.profile.name := by
    simp only [Sorting.standing, toLex_inj, Prod.mk.injEq] at h
    exact h.2
  rw [profile_of_outcome? hpa, profile_of_outcome? hqb] at hname
  have hpq : p = q := List.inj_on_of_nodup_map hnames hp hq hname
  rw [hpq, hqb] at hpa
  exact (Option.some.inj hpa).symm

-- ========================================================= two rankings

/-- The order of profiles of different names cannot be seen in
their ranking. -/
theorem ranking_perm (hnames : (profiles.map (·.name)).Nodup)
    {permuted : List Profile} (hperm : permuted.Perm profiles) :
    ranking homes c settings permuted
      = ranking homes c settings profiles := by
  rw [ranking_eq, ranking_eq, Sorting.map_snd_placements,
    Sorting.map_snd_placements]
  symm
  apply Sorting.mergeSort_eq_of_perm
  · exact (hperm.filterMap _).symm
  · intro a ha b hb h
    exact eq_of_standing_eq hnames ha hb h

/-- Nor does it decide whether there is a ranking. -/
theorem rank_perm (hnames : (profiles.map (·.name)).Nodup)
    {permuted : List Profile} (hperm : permuted.Perm profiles) :
    rank homes c settings permuted = rank homes c settings profiles := by
  cases hranked : rank homes c settings profiles with
  | error defect =>
      obtain ⟨hdefect, hon, p, hp, hstumbles⟩ := rank_eq_error_iff.1 hranked
      exact rank_eq_error_iff.2
        ⟨hdefect, hon, p, hperm.mem_iff.2 hp, hstumbles⟩
  | ok ranked =>
      obtain ⟨hclear, rfl⟩ := rank_eq_ok_iff.1 hranked
      exact rank_eq_ok_iff.2 ⟨fun hon p hp =>
        hclear hon p (hperm.mem_iff.1 hp), (ranking_perm hnames hperm).symm⟩

/-- A ranking of the profiles at some positions is the ranking of all,
without the results from the other positions. -/
theorem ranking_selected (keep : Nat → Bool) (profiles : List Profile) :
    ranking homes c settings (Sorting.selected keep profiles)
      = ((Sorting.placements (outcome? homes c settings)
          (Sorting.standing Detected.confidence (·.profile.name))
          profiles).filter fun x => keep x.1).map Prod.snd := by
  rw [ranking_eq]
  exact Sorting.placements_selected _ _ keep profiles

-- =========================================================== main result

/-- Profiles of different names are ranked alike in any order. And the
results of a ranking belong to positions of the list, such that leaving
positions out leaves out their results, and the others stay as they are
and in their order. Some of the profiles have a ranking unless entries are
looked at and one of them stumbles over its own. -/
theorem rank_independent (homes : Homes) (c : Context)
    (settings : DetectionSettings) (profiles : List Profile) :
    ((profiles.map (·.name)).Nodup →
        ∀ permuted : List Profile, permuted.Perm profiles →
          rank homes c settings permuted = rank homes c settings profiles)
      ∧ (∀ (keep : Nat → Bool) defect,
          rank homes c settings (Sorting.selected keep profiles)
              = .error defect
            ↔ defect = .nullByte ∧ settings.checkIncludeIf = true
              ∧ ∃ p ∈ Sorting.selected keep profiles, Stumbles homes c p)
      ∧ ∀ ranked, rank homes c settings profiles = .ok ranked →
        ∃ placed : List (Nat × Detected),
          placed.map Prod.snd = ranked
            ∧ (placed.map Prod.fst).Nodup
            ∧ (∀ i d, (i, d) ∈ placed ↔ ∃ p, profiles[i]? = some p
                ∧ scoreProfile homes c (Signal.enabled settings) p
                  = .ok (some d)
                ∧ settings.minConfidence ≤ d.confidence)
            ∧ ∀ keep : Nat → Bool,
                rank homes c settings (Sorting.selected keep profiles)
                  = .ok ((placed.filter fun x => keep x.1).map
                    Prod.snd) := by
  refine ⟨fun hnames permuted hperm => rank_perm hnames hperm,
    fun keep defect => rank_eq_error_iff, fun ranked hranked => ?_⟩
  obtain ⟨hclear, rfl⟩ := rank_eq_ok_iff.1 hranked
  refine ⟨_, (ranking_eq profiles).symm, Sorting.nodup_placements _ _ _,
    fun i d => ?_, fun keep => ?_⟩
  · simp only [Sorting.mem_placements_iff, outcome?_eq_some_iff]
    refine exists_congr fun p => and_congr_right fun hp => ?_
    have hscored : scoreProfile homes c (Signal.enabled settings) p
        = .ok (score? homes c (Signal.enabled settings) p) :=
      scoreProfile_eq_ok_iff.2 ⟨fun hon =>
        hclear (mem_enabled_iff.1 hon) p (List.mem_of_getElem? hp), rfl⟩
    rw [hscored, Except.ok.injEq]
  · refine rank_eq_ok_iff.2 ⟨fun hon p hp => ?_,
      (ranking_selected keep profiles).symm⟩
    exact hclear hon p (Sorting.mem_of_mem_selected hp)

/-- Two profiles that a host name fits equally well. -/
def boxProfiles : List Profile :=
  [{ name := "work", email := "a@work.example", hostPatterns := ["box"] },
    { name := "home", email := "a@home.example", hostPatterns := ["box"] }]

/-- Both reach the floor, with equal confidence, and are ranked alike in
either order. -/
theorem rank_boxProfiles_reverse :
    (boxProfiles.map (·.name)).Nodup ∧ boxProfiles.reverse.Perm boxProfiles
      ∧ (candidates Path.adaAndBob boxRoot {} boxProfiles).map standings
        = .ok [("work", 0.9), ("home", 0.9)]
      ∧ rank Path.adaAndBob boxRoot {} boxProfiles.reverse
        = rank Path.adaAndBob boxRoot {} boxProfiles := by
  have hnames : (boxProfiles.map (·.name)).Nodup := by decide
  have hperm : boxProfiles.reverse.Perm boxProfiles :=
    boxProfiles.reverse_perm
  have hindependent :=
    rank_independent Path.adaAndBob boxRoot {} boxProfiles
  exact ⟨hnames, hperm, by decide +kernel, hindependent.1 hnames _ hperm⟩

/-- Of three profiles there is no ranking on account of the first; without
it there is one of the others. -/
theorem rank_beside_nulUser :
    rank Path.adaAndBob boxRoot {} (nulUserProfile :: boxProfiles)
        = .error .nullByte
      ∧ ∃ ranked, rank Path.adaAndBob boxRoot {} boxProfiles
        = .ok ranked := by
  have hentries : ∀ p ∈ boxProfiles, p.includeIfDirs = [] := by decide
  constructor
  · exact rank_eq_error_iff.2
      ⟨rfl, rfl, _, List.mem_cons_self, stumbles_nulUser⟩
  · exact ⟨_, rank_eq_ok_iff.2
      ⟨fun _ p hp => not_stumbles_of_nil (hentries p hp), rfl⟩⟩

end GitPersona.Detection
