/-
More patterns never make a profile less likely. A profile that has the
patterns of another one, and perhaps more, at any places and in any
order, fires every rule that the other one does, with no less
confidence, and stays in every ranking that holds the other
(`rank_extends`). Profiles that have the same patterns in another order,
or some of them twice, differ in evidence alone. What a profile must not
do is stumble over an entry that the system refuses: then nothing is said
of it at all (`rank_nulUserHost`).

Four signals read patterns, and three of them stop at a first hit. They
come to a greatest confidence all the same: the best pair of a remote
and a pattern is one of a greater set of pairs, a fitting directory can
only come nearer, and a literal host name goes before a glob. That a
nearer directory counts for no less is a matter of arithmetic: from the
fourth one above the working directory on, the confidence is the least
one (`heightConfidence_far`), which bounds on rounded products and
differences show for every height.
-/
import GitPersona.Proofs.Detection.Hosts
import GitPersona.Proofs.Detection.Ranking
import GitPersona.Proofs.Number.Arithmetic

namespace GitPersona.Detection

open Number (HasValue IsNumber FirstGreatest)

variable {homes : Homes} {c : Context} {p q : Profile}

-- ================================================ statement vocabulary

/-- A profile has every pattern that another one has, and its identity. -/
structure Extends (p q : Profile) : Prop where
  repos : p.repos ⊆ q.repos
  matchPatterns : p.matchPatterns ⊆ q.matchPatterns
  includeIfDirs : p.includeIfDirs ⊆ q.includeIfDirs
  hostPatterns : p.hostPatterns ⊆ q.hostPatterns
  email : p.email = q.email
  userName : p.userName = q.userName

/-- A rule without its evidence. -/
def Fired.weight (r : Fired) : String × Tier × Float :=
  (r.name, r.tier, r.confidence)

-- ======================================================= the height above

/-- One directory further up the confidence is `0.1` less, but never
below `0.4`. -/
theorem heightConfidence_succ (n : Nat) :
    heightConfidence (n + 1)
      = if 0.7 - 0.1 * Float.ofNat n ≤ 0.4 then 0.4
        else 0.7 - 0.1 * Float.ofNat n :=
  rfl

/-- From the fourth directory above on, the confidence is the least one. -/
theorem heightConfidence_far {n : Nat} (hn : 4 ≤ n) :
    heightConfidence n = 0.4 := by
  obtain ⟨n, rfl⟩ : ∃ k, n = k + 1 := ⟨n - 1, by omega⟩
  have hstep : HasValue 0.1 (Number.scaled 7205759403792794 (-56)) :=
    ⟨false, _, _, by decide +kernel, rfl⟩
  have hthree : HasValue 3.0 (Number.scaled 6755399441055744 (-51)) :=
    ⟨false, _, _, by decide +kernel, rfl⟩
  have hdrop : HasValue 0.3 (Number.scaled 5404319552844595 (-54)) :=
    ⟨false, _, _, by decide +kernel, rfl⟩
  have hfirst : HasValue 0.7 (Number.scaled 6305039478318694 (-53)) :=
    ⟨false, _, _, by decide +kernel, rfl⟩
  have hleast : HasValue 0.4 (Number.scaled 7205759403792794 (-54)) :=
    ⟨false, _, _, by decide +kernel, rfl⟩
  -- three steps down are as far as the least one: each of the roundings
  -- below keeps the order
  have hcount : (3.0 : Float) ≤ Float.ofNat n := by
    refine Number.le_ofNat hthree (by norm_num [Number.scaled]) ?_
    have hcast : (3 : ℚ) ≤ n := by exact_mod_cast (by omega : 3 ≤ n)
    refine le_trans (by norm_num [Number.scaled]) hcast
  have hproduct : (0.3 : Float) ≤ 0.1 * Float.ofNat n := by
    refine Number.le_mul hstep hthree hdrop ?_ ?_ (by decide) hcount ?_
    · norm_num [Number.scaled]
    · norm_num [Number.scaled]
    · norm_num [Number.scaled]
  have hdifference : (0.7 : Float) - 0.1 * Float.ofNat n ≤ 0.4 := by
    refine Number.sub_le hfirst hdrop hleast hproduct ?_
    norm_num [Number.scaled]
  rw [heightConfidence_succ, if_pos hdifference]

/-- Near directories count for at least as much as those further up, and all
for the least. -/
theorem heightConfidence_near :
    ∀ n < 4, 0.4 ≤ heightConfidence n
      ∧ ∀ m ≤ n, heightConfidence n ≤ heightConfidence m := by
  decide +kernel

/-- No height takes the confidence below `0.4`. -/
theorem least_le_heightConfidence (n : Nat) : 0.4 ≤ heightConfidence n := by
  by_cases hn : n < 4
  · exact (heightConfidence_near n hn).1
  · rw [heightConfidence_far (by omega)]
    decide

/-- A nearer directory counts for no less. -/
theorem heightConfidence_le {m n : Nat} (h : m ≤ n) :
    heightConfidence n ≤ heightConfidence m := by
  by_cases hn : n < 4
  · exact (heightConfidence_near n hn).2 m h
  · rw [heightConfidence_far (by omega)]
    exact least_le_heightConfidence m

-- ======================================================== the best finding

/-- The stronger one of what was found before and a finding. -/
def stronger (best : Option Finding) (f : Finding) : Option Finding :=
  if f.confidence > 0.0 then
    match best with
    | none => some f
    | some b => if f.confidence > b.confidence then some f else some b
  else best

/-- A finding without confidence replaces nothing. -/
theorem stronger_of_not_pos {f : Finding} (hf : ¬f.confidence > 0.0)
    (best : Option Finding) :
    stronger best f = best :=
  if_neg hf

/-- Once there is a finding, the search is one among those with
some confidence. -/
theorem foldl_stronger (fs : List Finding) (b : Finding) :
    fs.foldl stronger (some b)
      = some ((fs.filter fun f => f.confidence > 0.0).foldl
        (fun best f => if f.confidence > best.confidence then f else best)
        b) := by
  induction fs generalizing b with
  | nil => rfl
  | cons f fs ih =>
      rw [List.foldl_cons, List.filter_cons]
      by_cases hpositive : f.confidence > 0.0
      · have hstep : stronger (some b) f
            = some (if f.confidence > b.confidence then f else b) := by
          rw [stronger, if_pos hpositive]
          exact (apply_ite some _ _ _).symm
        rw [hstep, ih, if_pos (decide_eq_true hpositive), List.foldl_cons]
      · rw [stronger_of_not_pos hpositive, ih,
          if_neg (by simpa using hpositive)]

/-- The strongest finding is the first greatest of those with a
positive confidence. -/
theorem strongest_eq (fs : List Finding) :
    strongest fs = firstMax (fun a b : Finding => a.confidence > b.confidence)
      (fs.filter fun f => f.confidence > 0.0) := by
  show fs.foldl stronger none = _
  induction fs with
  | nil => rfl
  | cons f fs ih =>
      rw [List.foldl_cons, List.filter_cons]
      by_cases hpositive : f.confidence > 0.0
      · have hstep : stronger none f = some f := if_pos hpositive
        rw [hstep, foldl_stronger, if_pos (decide_eq_true hpositive)]
        simp only [firstMax, decide_eq_true_eq]
      · rw [stronger_of_not_pos hpositive, ih,
          if_neg (by simpa using hpositive)]

/-- Nothing is strongest exactly when no finding has any confidence. -/
theorem strongest_eq_none_iff {fs : List Finding} :
    strongest fs = none ↔ ∀ f ∈ fs, ¬0.0 < f.confidence := by
  rw [strongest_eq, Number.firstMax_eq_none_iff, List.filter_eq_nil_iff]
  simp only [decide_eq_true_eq, gt_iff_lt]

/-- The strongest finding is the first greatest of all of them, as long as
their confidences are numbers. -/
theorem firstGreatest_of_strongest {fs : List Finding}
    (hnumber : ∀ g ∈ fs, IsNumber g.confidence) {f : Finding}
    (hf : strongest fs = some f) :
    0.0 < f.confidence
      ∧ FirstGreatest (fun g => Number.line g.confidence) fs f := by
  rw [strongest_eq] at hf
  have hexceeds : ∀ a ∈ fs.filter (·.confidence > 0.0), ∀ b
      ∈ fs.filter (·.confidence > 0.0),
      decide (a.confidence > b.confidence) = true
        ↔ Number.line b.confidence < Number.line a.confidence := by
    intro a _ b hb
    rw [decide_eq_true_eq]
    exact (hnumber b (List.mem_of_mem_filter hb)).lt_iff
  have hfirst := Number.firstGreatest_of_firstMax
    (fun g : Finding => Number.line g.confidence)
    hexceeds hf
  have hpositive : 0.0 < f.confidence :=
    of_decide_eq_true (List.mem_filter.1 hfirst.mem).2
  refine ⟨hpositive, hfirst.of_filter fun g hg hkept => ?_⟩
  have hzero : IsNumber 0.0 :=
    (Number.isNumber_of_le (Number.le_of_lt hpositive)).1
  have hle : g.confidence ≤ 0.0 :=
    Number.le_of_not_lt hzero (hnumber g hg) (of_decide_eq_false hkept)
  exact (Number.lt_iff.1 (Number.lt_of_le_of_lt hle hpositive)).2

/-- The strongest of more findings is no weaker, as long as their confidences
are numbers. -/
theorem strongest_mono {fs gs : List Finding} (hsub : fs ⊆ gs)
    (hnumber : ∀ g ∈ gs, IsNumber g.confidence) {f : Finding}
    (hf : strongest fs = some f) :
    0.0 < f.confidence ∧ ∃ g, strongest gs = some g
      ∧ f.confidence ≤ g.confidence := by
  obtain ⟨hpositive, hfirst⟩ :=
    firstGreatest_of_strongest (fun g hg => hnumber g (hsub hg)) hf
  have hmem : f ∈ gs := hsub hfirst.mem
  refine ⟨hpositive, ?_⟩
  cases hg : strongest gs with
  | none => exact absurd hpositive (strongest_eq_none_iff.1 hg f hmem)
  | some g =>
      obtain ⟨-, hgreatest⟩ := firstGreatest_of_strongest hnumber hg
      exact ⟨g, rfl, (hnumber f hmem).le_iff.2 (hgreatest.le hmem)⟩

/-- A pattern scores one, `0.8` or nothing. -/
theorem scoreUrl_cases (pattern url : String) :
    scoreUrl pattern url = 1.0 ∨ scoreUrl pattern url = 0.8
      ∨ scoreUrl pattern url = 0.0 := by
  unfold scoreUrl
  dsimp only
  split
  · split
    · exact Or.inl rfl
    · exact Or.inr (Or.inr rfl)
  · split
    · split
      · exact Or.inl rfl
      · exact Or.inr (Or.inl rfl)
    · exact Or.inr (Or.inr rfl)

/-- What a pattern scores is a number. -/
theorem isNumber_scoreUrl (pattern url : String) :
    IsNumber (scoreUrl pattern url) := by
  have hone : (1.0 : Float) ≤ 1.0 := by decide
  have hless : (0.8 : Float) ≤ 0.8 := by decide
  have hzero : (0.0 : Float) ≤ 0.0 := by decide
  rcases scoreUrl_cases pattern url with h | h | h
  · rw [h]
    exact (Number.isNumber_of_le hone).1
  · rw [h]
    exact (Number.isNumber_of_le hless).1
  · rw [h]
    exact (Number.isNumber_of_le hzero).1

-- ======================================================== the nearest match

/-- What is found in a list is found in a longer one. -/
theorem find?_isSome_of_subset {α : Type} {xs ys : List α} {f : α → Bool}
    (hsub : xs ⊆ ys)
    (hx : (xs.find? f).isSome = true) : (ys.find? f).isSome = true := by
  rw [List.find?_isSome] at hx ⊢
  obtain ⟨a, ha, hfits⟩ := hx
  exact ⟨a, hsub ha, hfits⟩

/-- There is no nearest match exactly when no pattern takes any of the
directories. -/
theorem nearestMatch?_eq_none_iff {patterns : List String} {height : Nat}
    {ds : List Path} :
    nearestMatch? patterns height ds = none
      ↔ ∀ d ∈ ds, ∀ q ∈ patterns, patternTakes q d = false := by
  induction ds generalizing height with
  | nil => simp [nearestMatch?]
  | cons d ds ih =>
      rw [nearestMatch?, List.forall_mem_cons]
      cases hfind : patterns.find? (patternTakes · d) with
      | none =>
          simp only [List.find?_eq_none, Bool.not_eq_true] at hfind
          rw [ih, and_iff_right hfind]
      | some pattern =>
          have htakes := List.find?_some hfind
          have hmem := List.mem_of_find?_eq_some hfind
          simp only [reduceCtorEq, false_iff]
          rintro ⟨hnone, -⟩
          rw [hnone pattern hmem] at htakes
          cases htakes

/-- The search stops at the first directory that a pattern takes, and counts
those before it. -/
theorem exists_of_nearestMatch? {patterns : List String} {height n : Nat}
    {ds : List Path}
    {d : Path} {pattern : String}
    (h : nearestMatch? patterns height ds = some (n, d, pattern)) :
    ∃ before after, ds = before ++ d :: after ∧ n = height + before.length
      ∧ (∀ e ∈ before, ∀ q ∈ patterns, patternTakes q e = false)
      ∧ patterns.find? (patternTakes · d) = some pattern := by
  induction ds generalizing height with
  | nil => cases h
  | cons e ds ih =>
      rw [nearestMatch?] at h
      cases hfind : patterns.find? (patternTakes · e) with
      | some q =>
          rw [hfind] at h
          cases h
          exact ⟨[], ds, rfl, rfl, by simp, hfind⟩
      | none =>
          rw [hfind] at h
          obtain ⟨before, after, rfl, rfl, hbefore, hpattern⟩ := ih h
          simp only [List.find?_eq_none, Bool.not_eq_true] at hfind
          refine ⟨e :: before, after, rfl, ?_,
            List.forall_mem_cons.2 ⟨hfind, hbefore⟩, hpattern⟩
          rw [List.length_cons]
          omega

/-- More patterns take a directory that is at least as near. -/
theorem nearestMatch?_mono {patterns more : List String}
    (hsub : patterns ⊆ more) {height : Nat}
    {ds : List Path} {found : Nat × Path × String}
    (h : nearestMatch? patterns height ds = some found) :
    ∃ found', nearestMatch? more height ds = some found'
      ∧ found'.1 ≤ found.1 := by
  obtain ⟨n, d, pattern⟩ := found
  obtain ⟨before, after, hsplit, rfl, -, hfind⟩ := exists_of_nearestMatch? h
  have htakes := List.find?_some hfind
  have hpattern : pattern ∈ more := hsub (List.mem_of_find?_eq_some hfind)
  have hd : ds[before.length]? = some d := by simp [hsplit]
  cases hmore : nearestMatch? more height ds with
  | none =>
      rw [nearestMatch?_eq_none_iff] at hmore
      rw [hmore d (List.mem_of_getElem? hd) pattern hpattern] at htakes
      cases htakes
  | some found' =>
      obtain ⟨n', d', pattern'⟩ := found'
      obtain ⟨before', after', rfl, rfl, hbefore', -⟩ :=
        exists_of_nearestMatch? hmore
      refine ⟨_, rfl, Nat.add_le_add_left (Nat.le_of_not_lt fun hlt => ?_)
        height⟩
      -- otherwise the search among more patterns would have passed this
      -- directory
      rw [List.getElem?_append_left hlt] at hd
      rw [hbefore' d (List.mem_of_getElem? hd) pattern hpattern] at htakes
      cases htakes

-- =========================================================== signal by signal

/-- A host name that fits a literal pattern, or else a glob, does so among
more patterns. -/
theorem hostname_mono (h : p.hostPatterns ⊆ q.hostPatterns) {f : Finding}
    (hf : hostname c p = some f) :
    0.0 < f.confidence ∧ ∃ g, hostname c q = some g
      ∧ f.confidence ≤ g.confidence := by
  have hname : (0.0 : Float) < 0.9 ∧ (0.9 : Float) ≤ 0.9 := by decide
  have hglob : (0.0 : Float) < 0.7 ∧ (0.7 : Float) ≤ 0.7
      ∧ (0.7 : Float) ≤ 0.9 := by decide
  rcases hostname_cases c p with
    ⟨pattern, hfirst, hp⟩ | ⟨-, ⟨pattern, hfirst, hp⟩ | ⟨-, hp⟩⟩
  · cases hf.symm.trans hp
    obtain ⟨g, hg, hconfidence⟩ := Option.map_eq_some_iff.1
      (confidence_hostname_eq_named_iff.2
        ⟨pattern, h hfirst.mem, hfirst.holds⟩)
    exact ⟨hname.1, g, hg, hconfidence ▸ hname.2⟩
  · cases hf.symm.trans hp
    refine ⟨hglob.1, ?_⟩
    rcases hostname_cases c q with
      ⟨_, -, hq⟩ | ⟨-, ⟨_, -, hq⟩ | ⟨huncovered, -⟩⟩
    · exact ⟨_, hq, hglob.2.2⟩
    · exact ⟨_, hq, hglob.2.1⟩
    · exact absurd hfirst.holds (huncovered pattern (h hfirst.mem))
  · cases hf.symm.trans hp

/-- The rule on the git configuration does not read the lists. -/
theorem gitConfig_eq (h : Extends p q) : gitConfig c q = gitConfig c p := by
  rw [gitConfig, gitConfig, h.email, h.userName]

/-- The rule on the git configuration fires with one or `0.5`. -/
theorem gitConfig_cases {f : Finding} (hf : gitConfig c p = some f) :
    f.confidence = 1.0 ∨ f.confidence = 0.5 := by
  unfold gitConfig at hf
  dsimp only at hf
  split at hf
  · cases hf
    exact Or.inl rfl
  · split at hf
    · cases hf
      exact Or.inr rfl
    · split at hf
      · cases hf
        exact Or.inr rfl
      · cases hf

/-- The best of more remote patterns is at least as good: the pairs of a
remote and a pattern are among those of the longer list. -/
theorem remoteUrl_mono (h : p.repos ⊆ q.repos) {f : Finding}
    (hf : remoteUrl c p = some f) :
    0.0 < f.confidence ∧ ∃ g, remoteUrl c q = some g
      ∧ f.confidence ≤ g.confidence := by
  refine strongest_mono ?_ ?_ hf
  · intro g hg
    obtain ⟨remote, hremote, hpattern⟩ := List.mem_flatMap.1 hg
    obtain ⟨pattern, hmem, rfl⟩ := List.mem_map.1 hpattern
    exact List.mem_flatMap.2 ⟨remote, hremote,
      List.mem_map.2 ⟨pattern, h hmem, rfl⟩⟩
  · intro g hg
    obtain ⟨remote, -, hpattern⟩ := List.mem_flatMap.1 hg
    obtain ⟨pattern, -, rfl⟩ := List.mem_map.1 hpattern
    exact isNumber_scoreUrl pattern remote.2

/-- A directory that lies in one of some entries lies in one of more, unless
one of those is stumbled over. -/
theorem includeIfDir_mono (h : p.includeIfDirs ⊆ q.includeIfDirs)
    (hclear : ¬Stumbles homes c q) {f : Finding}
    (hf : includeIfDir homes c p = .ok (some f)) :
    0.0 < f.confidence ∧ ∃ g, includeIfDir homes c q = .ok (some g)
      ∧ f.confidence ≤ g.confidence := by
  have hwhole : (0.0 : Float) < 1.0 ∧ (1.0 : Float) ≤ 1.0 := by decide
  have hother := includeIfDir_eq_ok hclear
  rw [includeIfDir_eq_ok (not_stumbles_of_includeIfDir hf),
    Except.ok.injEq] at hf
  obtain ⟨entry, hentry, rfl⟩ := Option.map_eq_some_iff.1 hf
  have hfits := find?_isSome_of_subset h (Option.isSome_iff_exists.2
    ⟨_, hentry⟩)
  obtain ⟨entry', hfound⟩ := Option.isSome_iff_exists.1 hfits
  rw [hfound] at hother
  exact ⟨hwhole.1, _, hother, hwhole.2⟩

/-- Among more patterns the directory that fits is at least as near. -/
theorem directoryPath_mono (h : p.matchPatterns ⊆ q.matchPatterns)
    {f : Finding} (hf : directoryPath c p = some f) :
    0.0 < f.confidence ∧ ∃ g, directoryPath c q = some g
      ∧ f.confidence ≤ g.confidence := by
  have hleast : (0.0 : Float) < 0.4 := by decide
  obtain ⟨found, hfound, rfl⟩ := Option.map_eq_some_iff.1 hf
  obtain ⟨found', hnearest, hle⟩ := nearestMatch?_mono h hfound
  refine ⟨?_, _, Option.map_eq_some_iff.2 ⟨_, hnearest, rfl⟩,
    heightConfidence_le hle⟩
  exact Number.lt_of_lt_of_le hleast (least_le_heightConfidence found.1)

/-- A signal that fires for a profile fires for one that extends it, and
with no less confidence, which is positive, unless it gives up there. -/
theorem finding?_extends (h : Extends p q) {s : Signal}
    (hclear : s = .includeIfDir → ¬Stumbles homes c q) {f : Finding}
    (hf : finding? homes c p s = some f) :
    0.0 < f.confidence
      ∧ ∃ g, finding? homes c q s = some g
        ∧ f.confidence ≤ g.confidence := by
  cases s with
  | remoteUrl => exact remoteUrl_mono h.repos hf
  | includeIfDir =>
      obtain ⟨hpositive, g, hg, hle⟩ := includeIfDir_mono h.includeIfDirs
        (hclear rfl) (finding?_eq_some_iff.1 hf)
      exact ⟨hpositive, g, finding?_eq_some_iff.2 hg, hle⟩
  | directoryPath => exact directoryPath_mono h.matchPatterns hf
  | hostname => exact hostname_mono h.hostPatterns hf
  | gitConfig =>
      have hhalf : (0.0 : Float) < 0.5 ∧ (0.5 : Float) ≤ 0.5 := by decide
      have hwhole : (0.0 : Float) < 1.0 ∧ (1.0 : Float) ≤ 1.0 := by decide
      have hsame : gitConfig c q = some f := (gitConfig_eq h).trans hf
      rcases gitConfig_cases hf with hconfidence | hconfidence
      · rw [hconfidence]
        exact ⟨hwhole.1, f, hsame, hconfidence ▸ hwhole.2⟩
      · rw [hconfidence]
        exact ⟨hhalf.1, f, hsame, hconfidence ▸ hhalf.2⟩

/-- Profiles that extend each other are equally likely by every signal that
gives up for neither. -/
theorem finding?_confidence_eq (hpq : Extends p q) (hqp : Extends q p)
    {s : Signal} (hp : s = .includeIfDir → ¬Stumbles homes c p)
    (hq : s = .includeIfDir → ¬Stumbles homes c q) :
    (finding? homes c q s).map (·.confidence)
      = (finding? homes c p s).map (·.confidence) := by
  cases hfp : finding? homes c p s with
  | none =>
      cases hfq : finding? homes c q s with
      | none => rfl
      | some g =>
          obtain ⟨-, f, hf, -⟩ := finding?_extends hqp hp hfq
          rw [hfp] at hf
          cases hf
  | some f =>
      obtain ⟨hpositive, g, hg, hle⟩ := finding?_extends hpq hq hfp
      obtain ⟨-, f', hf', hge⟩ := finding?_extends hqp hp hg
      rw [hfp] at hf'
      cases hf'
      rw [hg]
      exact congrArg some (Number.eq_of_le_of_le hpositive hle hge).symm

-- ============================================================== scoring

section

variable {signals : List Signal}

/-- Each rule that fires still fires for an extended profile that does
not stumble. -/
theorem firing_extends (h : Extends p q)
    (hclear : .includeIfDir ∈ signals → ¬Stumbles homes c q) {r : Fired}
    (hr : r ∈ firing homes c p signals) :
    ∃ r' ∈ firing homes c q signals, r'.name = r.name ∧ r'.tier = r.tier
      ∧ r.confidence ≤ r'.confidence := by
  obtain ⟨s, hs, hfired⟩ := List.mem_filterMap.1 hr
  obtain ⟨f, hf, rfl⟩ := Option.map_eq_some_iff.1 hfired
  obtain ⟨-, g, hg, hle⟩ :=
    finding?_extends h (fun hself => hclear (hself ▸ hs)) hf
  refine ⟨s.rule g, List.mem_filterMap.2 ⟨s, hs, ?_⟩, rfl, rfl, ?_⟩
  · rw [hg, Option.map_some]
  · exact Number.clamp_le_clamp hle

/-- An extended profile that does not stumble scores no less. -/
theorem score?_extends (h : Extends p q)
    (hclear : .includeIfDir ∈ signals → ¬Stumbles homes c q)
    {d : Detected} (hd : score? homes c signals p = some d) :
    ∃ d', score? homes c signals q = some d'
      ∧ d.confidence ≤ d'.confidence := by
  obtain ⟨confidence, hgreatest, rfl⟩ := Option.map_eq_some_iff.1 hd
  obtain ⟨⟨r, hr, hattained⟩, -⟩ := greatestConfidence_spec hgreatest
  obtain ⟨r', hr', -, -, hmore⟩ := firing_extends h hclear hr
  rw [hattained] at hmore
  exact exists_score_iff.2 ⟨r', hr', hmore⟩

/-- Profiles that extend each other fire the same rules with the
same confidence. -/
theorem weight_firing (hpq : Extends p q) (hqp : Extends q p)
    (hp : .includeIfDir ∈ signals → ¬Stumbles homes c p)
    (hq : .includeIfDir ∈ signals → ¬Stumbles homes c q) :
    (firing homes c q signals).map Fired.weight
      = (firing homes c p signals).map Fired.weight := by
  have hrule : ∀ (o : Option Finding) (s : Signal),
      (o.map s.rule).map Fired.weight
        = (o.map (·.confidence)).map fun x => (s.name, s.tier, clamp x) := by
    intro o s
    rw [Option.map_map, Option.map_map]
    rfl
  rw [firing, firing, List.map_filterMap, List.map_filterMap]
  refine List.filterMap_congr fun s hs => ?_
  rw [hrule, hrule, finding?_confidence_eq hpq hqp
    (fun hself => hp (hself ▸ hs)) fun hself => hq (hself ▸ hs)]

/-- Profiles that extend each other score the same. -/
theorem confidence_score? (hpq : Extends p q) (hqp : Extends q p)
    (hp : .includeIfDir ∈ signals → ¬Stumbles homes c p)
    (hq : .includeIfDir ∈ signals → ¬Stumbles homes c q) :
    (score? homes c signals q).map (·.confidence)
      = (score? homes c signals p).map (·.confidence) := by
  have hconfidence : ∀ p, (score? homes c signals p).map (·.confidence)
      = firstMax (fun x y : Float => x > y)
          (((firing homes c p signals).map Fired.weight).map
            fun w => w.2.2) := by
    intro p
    rw [List.map_map, score?, assess, Option.map_map]
    exact Option.map_id'
  rw [hconfidence, hconfidence, weight_firing hpq hqp hp hq]

end

/-- An extended profile that does not stumble keeps its place in the ranking,
with no less confidence. -/
theorem ranking_extends (h : Extends p q) {settings : DetectionSettings}
    (hclear : settings.checkIncludeIf = true → ¬Stumbles homes c q)
    {before after : List Profile} {d : Detected}
    (hd : d ∈ ranking homes c settings (before ++ p :: after))
    (hp : d.profile = p) :
    ∃ d' ∈ ranking homes c settings (before ++ q :: after),
      d'.profile = q ∧ d.confidence ≤ d'.confidence := by
  obtain ⟨p', -, hp'⟩ := mem_ranking_iff.1 hd
  obtain rfl : p' = p := (profile_of_outcome? hp').symm.trans hp
  obtain ⟨hscore, hfloor⟩ := outcome?_eq_some_iff.1 hp'
  obtain ⟨d', hscore', hle⟩ :=
    score?_extends h (fun hon => hclear (mem_enabled_iff.1 hon)) hscore
  have houtcome : outcome? homes c settings q = some d' :=
    outcome?_eq_some_iff.2 ⟨hscore', Number.le_trans hfloor hle⟩
  refine ⟨d', mem_ranking_iff.2 ⟨q, ?_, houtcome⟩,
    profile_of_outcome? houtcome, hle⟩
  exact List.mem_append_right _ List.mem_cons_self

-- =========================================================== main result

/-- A profile that extends another one fires its rules with no less
confidence, scores no less, and takes its place in a ranking without
dropping out; profiles that extend each other, having the same patterns in
another order or more than once, have the same weights and the same score.
All this is so unless entries are looked at and the profile stumbles over
one, where there are no rules, no score and no ranking. -/
theorem rank_extends (h : Extends p q) (homes : Homes) (c : Context) :
    (∀ signals defect, firedRules homes c q signals = .error defect
        ↔ defect = .nullByte ∧ .includeIfDir ∈ signals
          ∧ Stumbles homes c q)
      ∧ (∀ signals fired, firedRules homes c p signals = .ok fired →
          (.includeIfDir ∈ signals → ¬Stumbles homes c q) →
          ∃ more, firedRules homes c q signals = .ok more
            ∧ ∀ r ∈ fired, ∃ r' ∈ more, r'.name = r.name
              ∧ r'.tier = r.tier ∧ r.confidence ≤ r'.confidence)
      ∧ (∀ signals d, scoreProfile homes c signals p = .ok (some d) →
          (.includeIfDir ∈ signals → ¬Stumbles homes c q) →
          ∃ d', scoreProfile homes c signals q = .ok (some d')
            ∧ d.confidence ≤ d'.confidence)
      ∧ (∀ settings before after ranked,
          rank homes c settings (before ++ p :: after) = .ok ranked →
          (settings.checkIncludeIf = true → ¬Stumbles homes c q) →
          ∃ reranked,
            rank homes c settings (before ++ q :: after) = .ok reranked
              ∧ ∀ d ∈ ranked, d.profile = p →
                ∃ d' ∈ reranked, d'.profile = q
                  ∧ d.confidence ≤ d'.confidence)
      ∧ (Extends q p → ∀ signals fired,
          firedRules homes c p signals = .ok fired →
          (.includeIfDir ∈ signals → ¬Stumbles homes c q) →
          ∃ others, firedRules homes c q signals = .ok others
            ∧ others.map Fired.weight = fired.map Fired.weight
            ∧ (scoreProfile homes c signals q).map
                (·.map Detected.confidence)
              = (scoreProfile homes c signals p).map
                (·.map Detected.confidence)) := by
  refine ⟨fun signals defect => firedRules_eq_error_iff,
    fun signals fired hfired hclear => ?_,
    fun signals d hd hclear => ?_,
    fun settings before after ranked hranked hclear => ?_,
    fun hback signals fired hfired hclear => ?_⟩
  · obtain ⟨-, rfl⟩ := firedRules_eq_ok_iff.1 hfired
    exact ⟨_, firedRules_eq_ok_iff.2 ⟨hclear, rfl⟩,
      fun r hr => firing_extends h hclear hr⟩
  · obtain ⟨d', hd', hle⟩ :=
      score?_extends h hclear (score?_of_eq_ok hd)
    exact ⟨d', scoreProfile_eq_ok_iff.2 ⟨hclear, hd'.symm⟩, hle⟩
  · obtain ⟨hothers, rfl⟩ := rank_eq_ok_iff.1 hranked
    refine ⟨_, rank_eq_ok_iff.2 ⟨fun hon p' hp' => ?_, rfl⟩,
      fun d hd hp => ranking_extends h hclear hd hp⟩
    rw [List.mem_append, List.mem_cons] at hp'
    rcases hp' with hbefore | rfl | hafter
    · exact hothers hon p' (List.mem_append_left _ hbefore)
    · exact hclear hon
    · exact hothers hon p'
        (List.mem_append_right _ (List.mem_cons_of_mem _ hafter))
  · obtain ⟨hp, rfl⟩ := firedRules_eq_ok_iff.1 hfired
    refine ⟨_, firedRules_eq_ok_iff.2 ⟨hclear, rfl⟩,
      weight_firing h hback hp hclear, ?_⟩
    rw [scoreProfile_eq_ok_iff.2 ⟨hclear, rfl⟩,
      scoreProfile_eq_ok_iff.2 ⟨hp, rfl⟩]
    exact congrArg Except.ok (confidence_score? h hback hp hclear)

/-- A profile that knows a host by a glob alone. -/
def globbedHost : Profile :=
  { name := "work", email := "a@work.example", hostPatterns := ["box*"] }

/-- The same profile with another glob before that one, and the host's own
name after it. -/
def listedHost : Profile :=
  { globbedHost with hostPatterns := ["srv?", "box*", "box-1"] }

/-- The glob alone reaches the floor, so the profile with the host's own
name is ranked. -/
theorem rank_listedHost :
    Extends globbedHost listedHost
      ∧ ∃ ranked reranked,
        rank Path.adaAndBob { workingDir := .root, hostname := "box-1" } {}
            [globbedHost] = .ok ranked
          ∧ rank Path.adaAndBob
            { workingDir := .root, hostname := "box-1" } {} [listedHost]
              = .ok reranked
          ∧ (∃ d ∈ ranked, d.profile = globbedHost ∧ d.confidence = 0.7)
          ∧ ∃ d ∈ reranked, d.profile = listedHost
            ∧ 0.7 ≤ d.confidence := by
  have hextends : Extends globbedHost listedHost :=
    ⟨by decide, by decide, by decide, by decide, rfl, rfl⟩
  have hentries : globbedHost.includeIfDirs = []
      ∧ listedHost.includeIfDirs = [] := by
    decide
  have hranked : rank Path.adaAndBob
      { workingDir := .root, hostname := "box-1" } {} [globbedHost]
        = .ok (ranking Path.adaAndBob
          { workingDir := .root, hostname := "box-1" } {} [globbedHost]) :=
    rank_eq_ok_iff.2 ⟨fun _ => List.forall_mem_singleton.2
      (not_stumbles_of_nil hentries.1), rfl⟩
  have hreached : (outcome? Path.adaAndBob
      { workingDir := .root, hostname := "box-1" } {} globbedHost).map
        (·.confidence) = some 0.7 := by
    decide +kernel
  obtain ⟨d, hd, hconfidence⟩ := Option.map_eq_some_iff.1 hreached
  have hmem := mem_ranking_iff.2 ⟨_, List.mem_singleton.2 rfl, hd⟩
  obtain ⟨-, -, -, hrank, -⟩ := rank_extends hextends Path.adaAndBob
    { workingDir := .root, hostname := "box-1" }
  obtain ⟨reranked, hreranked, hall⟩ := hrank {} [] [] _ hranked
    fun _ => not_stumbles_of_nil hentries.2
  have hprofile := profile_of_outcome? hd
  obtain ⟨d', hd', hprofile', hle⟩ := hall d hmem hprofile
  exact ⟨hextends, _, _, hranked, hreranked, ⟨d, hmem, hprofile,
    hconfidence⟩, d', hd', hprofile', hconfidence ▸ hle⟩

/-- The profile with a further entry, which the system refuses. -/
def nulUserHost : Profile :=
  { globbedHost with includeIfDirs := ["~a\x00b"] }

/-- The further entry takes the profile out of the ranking, with all
that it held. -/
theorem rank_nulUserHost :
    Extends globbedHost nulUserHost
      ∧ (∃ ranked, rank Path.adaAndBob
          { workingDir := .root, hostname := "box-1" } {} [globbedHost]
            = .ok ranked)
      ∧ rank Path.adaAndBob { workingDir := .root, hostname := "box-1" } {}
          [nulUserHost] = .error .nullByte := by
  have hextends : Extends globbedHost nulUserHost :=
    ⟨by decide, by decide, by decide, by decide, rfl, rfl⟩
  have hentries : globbedHost.includeIfDirs = [] := by decide
  refine ⟨hextends, ⟨_, rank_eq_ok_iff.2 ⟨fun _ =>
    List.forall_mem_singleton.2 (not_stumbles_of_nil hentries), rfl⟩⟩, ?_⟩
  exact rank_eq_error_iff.2 ⟨rfl, rfl, _, List.mem_singleton.2 rfl, [],
    "~a\x00b", [], rfl, by simp, Path.refused_userWithNul _⟩

end GitPersona.Detection
