/-
What a detection says of itself. Its best rule has the confidence of the
detection and is the first rule that has it, and its reason names the
two rules that stand first by tier, then confidence, then evaluation
order, or the only one (`explanation_of_scoreProfile`).

# Two orders

The best rule is chosen by confidence before tier, so of any rules it is
the first that none is above (`firstStrongest_of_bestRule`), which need
not be the first of its confidence. Of rules that were evaluated it is:
along these tiers never rise, so a higher tier cannot come later
(`firstGreatest_of_bestRule`). The reason goes by tier before
confidence, and its sort is stable, so that what it leaves out comes
after what it names in every respect (`exists_named`).
-/
import GitPersona.Proofs.Detection.Ranking

namespace GitPersona.Detection

open Number (FirstGreatest IsNumber line)
open OrderDual (toDual)

variable {homes : Homes} {c : Context} {settings : DetectionSettings}
    {p : Profile}
  {fired : List Fired} {a b best r x : Fired} {d : Detected}

-- ================================================ statement vocabulary

/-- The first rule has more confidence, or as much from a higher tier. -/
def Fired.Outranks (a b : Fired) : Prop :=
  b.confidence < a.confidence
    ∨ (a.confidence == b.confidence) = true ∧ b.tier.level < a.tier.level

/-- A rule that none outranks, and that outranks those before it. A confidence
that is no number is not outranked. -/
def IsFirstStrongest (fired : List Fired) (best : Fired) : Prop :=
  ∃ before after, fired = before ++ best :: after
    ∧ (∀ r ∈ fired, ¬r.Outranks best)
    ∧ ∀ r ∈ before, r.confidence.isNaN = false → best.Outranks r

/-- The rule at the first position is of a higher tier, or of the same tier
with more confidence, or with as much and earlier. -/
def Leads (x y : Nat × Fired) : Prop :=
  y.2.tier.level < x.2.tier.level
    ∨ x.2.tier.level = y.2.tier.level
      ∧ (y.2.confidence < x.2.confidence
        ∨ (x.2.confidence == y.2.confidence) = true ∧ x.1 < y.1)

/-- The rules at some positions, two if there are so many, which lead all
others, and their summaries in that order. -/
structure Names (fired : List Fired) (named : List (Nat × Fired))
    (summaries : List String) :
    Prop where
  count : named.length = min 2 fired.length
  distinct : (named.map Prod.fst).Nodup
  stand : ∀ x ∈ named, fired[x.1]? = some x.2
  ordered : named.Pairwise Leads
  leads : ∀ x ∈ named, ∀ j r, fired[j]? = some r → j ∉ named.map Prod.fst →
    Leads x (j, r)
  summaries : List.Forall₂
    (fun x summary => ∃ s : Signal, s.name = x.2.name ∧ summary = s.summary)
    named summaries

/-- A detection explains itself: the best rule is the first of its confidence,
and the reason names the rules that lead. -/
structure Detected.Explained (d : Detected) : Prop where
  best : ∃ before best after, d.fired = before ++ best :: after
    ∧ d.bestRule = some best
    ∧ best.confidence = d.confidence
    ∧ ∀ r ∈ before, r.confidence < d.confidence
  reason : ∃ named summaries, Names d.fired named summaries
    ∧ d.reason = "Profile '" ++ d.profile.name ++ "' detected: "
      ++ ", ".intercalate summaries

-- ======================================================= the best rule

/-- What a best rule is chosen by: the confidence, then the tier. -/
def Fired.strength (r : Fired) : WithBot Number.Place ×ₗ Nat :=
  toLex (line r.confidence, r.tier.level)

/-- A rule outranks another by its strength. -/
theorem outranks_iff :
    a.Outranks b ↔ IsNumber b.confidence ∧ b.strength < a.strength := by
  have hsame : line a.confidence = line b.confidence →
      (IsNumber a.confidence ↔ IsNumber b.confidence) := by
    intro heq
    unfold IsNumber
    rw [heq]
  unfold Fired.Outranks Fired.strength
  rw [Number.lt_iff, Number.beq_iff, Prod.Lex.toLex_lt_toLex]
  constructor
  · intro h
    obtain ⟨hb, hlt⟩ | ⟨⟨ha, heq⟩, htier⟩ := h
    · exact ⟨hb, Or.inl hlt⟩
    · exact ⟨(hsame heq).1 ha, Or.inr ⟨heq.symm, htier⟩⟩
  · intro h
    obtain ⟨hb, hlt | ⟨heq, htier⟩⟩ := h
    · exact Or.inl ⟨hb, hlt⟩
    · exact Or.inr ⟨⟨(hsame heq.symm).2 hb, heq.symm⟩, htier⟩

/-- One rule exceeds another when it outranks it. -/
theorem exceeds_iff : a.exceeds b = true ↔ a.Outranks b := by
  simp [Fired.exceeds, Fired.Outranks]

/-- One rule more replaces the best rule if it outranks it. -/
theorem bestRule_concat (fired : List Fired) (x : Fired) :
    bestRule (fired ++ [x])
      = some ((bestRule fired).elim x fun best => if x.exceeds best then x
        else best) := by
  cases fired with
  | nil => rfl
  | cons first fired => simp [bestRule, firstMax, List.foldl_append]

/-- A rule more that does not outrank the strongest leaves it. -/
theorem IsFirstStrongest.keep (h : IsFirstStrongest fired best)
    (hx : ¬x.Outranks best) :
    IsFirstStrongest (fired ++ [x]) best := by
  obtain ⟨before, after, rfl, htop, hbefore⟩ := h
  refine ⟨before, after ++ [x], by simp, fun r hr => ?_, hbefore⟩
  rcases List.mem_append.1 hr with hr | hr
  · exact htop r hr
  · rw [List.mem_singleton.1 hr]
    exact hx

/-- A rule more that outranks the strongest replaces it. -/
theorem IsFirstStrongest.replace (h : IsFirstStrongest fired best)
    (hx : x.Outranks best) :
    IsFirstStrongest (fired ++ [x]) x := by
  obtain ⟨-, -, -, htop, -⟩ := h
  obtain ⟨hbest, habove⟩ := outranks_iff.1 hx
  have hless : ∀ r ∈ fired, r.strength < x.strength := by
    intro r hr
    have hnot := htop r hr
    rw [outranks_iff, not_and, not_lt] at hnot
    exact (hnot hbest).trans_lt habove
  refine ⟨fired, [], rfl, fun r hr => ?_, fun r hr hnumber => ?_⟩
  · rw [outranks_iff]
    intro h
    rcases List.mem_append.1 hr with hr | hr
    · exact lt_asymm h.2 (hless r hr)
    · rw [List.mem_singleton.1 hr] at h
      exact lt_irrefl _ h.2
  · rw [outranks_iff]
    exact ⟨Number.isNaN_eq_false_iff.1 hnumber, hless r hr⟩

/-- The best of any rules is the first strongest one. -/
theorem firstStrongest_of_bestRule (h : bestRule fired = some best) :
    IsFirstStrongest fired best := by
  induction fired using List.reverseRecOn generalizing best with
  | nil => cases h
  | append_singleton fired x ih =>
      rw [bestRule_concat, Option.some.injEq] at h
      cases hbest : bestRule fired with
      | none =>
          rw [hbest] at h
          have hnil : fired = [] := Number.firstMax_eq_none_iff.1 hbest
          subst h hnil
          refine ⟨[], [], rfl, fun r hr => ?_, by simp⟩
          rw [List.mem_singleton.1 hr, outranks_iff]
          exact fun h => lt_irrefl _ h.2
      | some previous =>
          rw [hbest, Option.elim_some] at h
          by_cases hx : x.exceeds previous = true
          · rw [if_pos hx] at h
            subst h
            exact (ih hbest).replace (exceeds_iff.1 hx)
          · rw [if_neg hx] at h
            subst h
            exact (ih hbest).keep (exceeds_iff.not.1 hx)

-- ================================================= in evaluation order

/-- Along the rules that fire tiers never rise. -/
theorem pairwise_tier (homes : Homes) (c : Context)
    (settings : DetectionSettings) (p : Profile) :
    (firing homes c p (Signal.enabled settings)).Pairwise
      fun a b => b.tier.level ≤ a.tier.level := by
  unfold firing
  rw [List.pairwise_filterMap]
  refine (pairwise_enabled settings).imp fun {s t} hst a ha b hb => ?_
  obtain ⟨-, -, rfl⟩ := Option.map_eq_some_iff.1 ha
  obtain ⟨-, -, rfl⟩ := Option.map_eq_some_iff.1 hb
  obtain hlt | ⟨heq, -⟩ := hst
  · exact hlt.le
  · exact (congrArg Tier.level heq).le

/-- Of rules in evaluation order the best is the first of the
greatest confidence. -/
theorem firstGreatest_of_bestRule
    (h : bestRule (firing homes c p (Signal.enabled settings)) = some best) :
    FirstGreatest (fun r : Fired => line r.confidence)
      (firing homes c p (Signal.enabled settings)) best := by
  obtain ⟨before, after, hsplit, htop, hbefore⟩ := firstStrongest_of_bestRule h
  have hmem : ∀ r ∈ before ++ best :: after,
      r ∈ firing homes c p (Signal.enabled settings) := by
    intro r hr
    rw [hsplit]
    exact hr
  have hnumber : ∀ r ∈ before ++ best :: after, IsNumber r.confidence :=
    fun r hr => isNumber_of_mem_firing (hmem r hr)
  have htiers := pairwise_tier homes c settings p
  rw [hsplit, List.pairwise_append] at htiers
  refine ⟨before, after, hsplit, fun r hr => ?_, fun r hr => ?_⟩
  · have hr' := hnumber r (List.mem_append_left _ hr)
    obtain hlt | ⟨-, htier⟩ := hbefore r hr (Number.isNaN_eq_false_iff.2 hr')
    · exact hr'.lt_iff.1 hlt
    · have hfalls := htiers.2.2 r hr best List.mem_cons_self
      omega
  · have hbest := hnumber best (by simp)
    refine not_lt.1 fun hlt => htop r (hmem r (by simp [hr])) ?_
    exact Or.inl (hbest.lt_iff.2 hlt)

-- ========================================================== the reason

/-- What a reason is ordered by: the tier, the highest first, then
the confidence. -/
def Fired.prominence (r : Fired) : Natᵒᵈ ×ₗ (WithBot Number.Place)ᵒᵈ :=
  toLex (toDual r.tier.level, toDual (line r.confidence))

/-- The rules at their positions, sorted for a reason. -/
def ordered (fired : List Fired) : List (Nat × Fired) :=
  Sorting.placements some Fired.prominence fired

/-- The ordered rules are those that fired, each with its position. -/
theorem mem_ordered_iff {i : Nat} :
    (i, r) ∈ ordered fired ↔ fired[i]? = some r := by
  simp [ordered, Sorting.mem_placements_iff]

/-- Without their positions, the ordered rules are the sorted ones. -/
theorem map_snd_ordered (hnumber : ∀ r ∈ fired, IsNumber r.confidence) :
    (ordered fired).map Prod.snd = fired.mergeSort Fired.precedes := by
  unfold ordered
  rw [Sorting.map_snd_placements, List.filterMap_some]
  symm
  refine Sorting.mergeSort_eq_of_key fun a _ b hb => ?_
  simp only [Fired.precedes, Fired.prominence, Bool.or_eq_true,
    Bool.and_eq_true, decide_eq_true_eq, beq_iff_eq, ge_iff_le,
    (hnumber b hb).le_iff, Prod.Lex.toLex_le_toLex, OrderDual.toDual_lt_toDual,
    OrderDual.toDual_le_toDual, OrderDual.toDual_inj, gt_iff_lt]

/-- The ordered rules lead one another. -/
theorem pairwise_ordered (hnumber : ∀ r ∈ fired, IsNumber r.confidence) :
    (ordered fired).Pairwise Leads := by
  refine (Sorting.pairwise_placements some Fired.prominence fired).imp_of_mem
    fun {x y} hx hy hbefore => ?_
  have hx' := hnumber x.2 (List.mem_of_getElem? (mem_ordered_iff.1 hx))
  have hy' := hnumber y.2 (List.mem_of_getElem? (mem_ordered_iff.1 hy))
  unfold Leads
  rw [hy'.lt_iff, hx'.beq_iff]
  simp only [Sorting.Before, Fired.prominence, Prod.Lex.toLex_lt_toLex,
    OrderDual.toDual_lt_toDual, OrderDual.toDual_inj, toLex_inj,
    Prod.mk.injEq] at hbefore
  tauto

/-- Rules of signals all have a summary. -/
theorem forall₂_summaries {named : List (Nat × Fired)}
    (hsignal : ∀ x ∈ named, ∃ s : Signal, x.2.name = s.name) :
    List.Forall₂ (fun x summary => ∃ s : Signal,
      s.name = x.2.name ∧ summary = s.summary) named
      ((named.map Prod.snd).filterMap fun r =>
        (Signal.ofName? r.name).map Signal.summary) := by
  induction named with
  | nil => exact List.Forall₂.nil
  | cons x named ih =>
      obtain ⟨⟨s, hs⟩, hsignal⟩ := List.forall_mem_cons.1 hsignal
      rw [List.map_cons, List.filterMap_cons, hs, ofName?_name]
      exact List.Forall₂.cons ⟨s, hs.symm, rfl⟩ (ih hsignal)

/-- The summaries of a reason are those of the rules that lead. -/
theorem exists_named (hnumber : ∀ r ∈ fired, IsNumber r.confidence)
    (hsignal : ∀ r ∈ fired, ∃ s : Signal, r.name = s.name) :
    ∃ named, Names fired named (topSummaries fired) := by
  have hsplit := List.take_append_drop 2 (ordered fired)
  have hleads := pairwise_ordered hnumber
  have hnodup := Sorting.nodup_placements some Fired.prominence fired
  have hlength : (ordered fired).length = fired.length := by
    rw [← List.length_map (f := Prod.snd), map_snd_ordered hnumber,
      List.length_mergeSort]
  have hstand : ∀ x ∈ (ordered fired).take 2, fired[x.1]? = some x.2 :=
    fun x hx => mem_ordered_iff.1 (List.mem_of_mem_take hx)
  refine ⟨(ordered fired).take 2, ?_, ?_, hstand, ?_,
    fun x hx j r hr hleft => ?_, ?_⟩
  · rw [List.length_take, hlength]
  · rw [List.map_take]
    exact hnodup.sublist (List.take_sublist _ _)
  · exact hleads.sublist (List.take_sublist _ _)
  · have hmem := mem_ordered_iff.2 hr
    rw [← hsplit] at hleads hmem
    obtain ⟨-, -, hacross⟩ := List.pairwise_append.1 hleads
    refine hacross x hx (j, r)
      ((List.mem_append.1 hmem).resolve_left fun hnamed => ?_)
    exact hleft (List.mem_map_of_mem hnamed)
  · unfold topSummaries
    rw [← map_snd_ordered hnumber, ← List.map_take]
    refine forall₂_summaries fun x hx => ?_
    exact hsignal x.2 (List.mem_of_getElem? (hstand x hx))

/-- A reason names the profile and the most prominent rules. -/
theorem reason_eq (p : Profile) (h : topSummaries fired ≠ []) :
    reason p fired
      = "Profile '" ++ p.name ++ "' detected: "
        ++ ", ".intercalate (topSummaries fired) := by
  unfold reason
  split
  · next hnone => exact absurd hnone h
  · simp [String.append_assoc]

-- ===================================================== the explanation

/-- The best rule of a score is the first of its confidence. -/
theorem exists_best (h : score? homes c (Signal.enabled settings) p = some d) :
    ∃ before best after, d.fired = before ++ best :: after
      ∧ d.bestRule = some best
      ∧ best.confidence = d.confidence
      ∧ ∀ r ∈ before, r.confidence < d.confidence := by
  obtain ⟨confidence, hgreatest, rfl⟩ := Option.map_eq_some_iff.1 h
  obtain ⟨first, rfl, hfirst⟩ := exists_firstGreatest hgreatest
  cases hbest : bestRule (firing homes c p (Signal.enabled settings)) with
  | none =>
      have hmem := hfirst.mem
      rw [Number.firstMax_eq_none_iff.1 hbest] at hmem
      cases hmem
  | some best =>
      have hsame : best = first :=
        (firstGreatest_of_bestRule hbest).unique hfirst
      subst hsame
      obtain ⟨before, after, hsplit, hbefore, -⟩ := hfirst
      refine ⟨before, best, after, hsplit, hbest, rfl, fun r hr => ?_⟩
      have hmem : r ∈ firing homes c p (Signal.enabled settings) := by
        rw [hsplit]
        exact List.mem_append_left _ hr
      exact (isNumber_of_mem_firing hmem).lt_iff.2 (hbefore r hr)

/-- The reason of a score names the rules that lead. -/
theorem exists_reason
    (h : score? homes c (Signal.enabled settings) p = some d) :
    ∃ named summaries, Names d.fired named summaries
      ∧ d.reason
        = "Profile '" ++ d.profile.name ++ "' detected: "
          ++ ", ".intercalate summaries := by
  obtain ⟨confidence, hgreatest, rfl⟩ := Option.map_eq_some_iff.1 h
  obtain ⟨first, -, hfirst⟩ := exists_firstGreatest hgreatest
  have hsignal : ∀ r ∈ firing homes c p (Signal.enabled settings),
      ∃ s : Signal, r.name = s.name := by
    intro r hr
    obtain ⟨s, -, f, -, rfl⟩ := exists_signal_of_mem_firing hr
    exact ⟨s, rfl⟩
  obtain ⟨named, hnames⟩ :=
    exists_named (fun r hr => isNumber_of_mem_firing hr) hsignal
  refine ⟨named, _, hnames, reason_eq p ?_⟩
  have hcount := hnames.summaries.length_eq
  have hfew := hnames.count
  have hpositive := List.length_pos_of_mem hfirst.mem
  apply List.ne_nil_of_length_pos
  omega

/-- Every score explains itself, whatever signals are on. Of any rules at
all, the best is the first that no other outranks. -/
theorem explanation_of_scoreProfile :
    (∀ (homes : Homes) (c : Context) (settings : DetectionSettings)
        (p : Profile) d,
        scoreProfile homes c (Signal.enabled settings) p = .ok (some d) →
        d.Explained)
      ∧ ∀ fired : List Fired, (bestRule fired = none ↔ fired = [])
        ∧ ∀ best ∈ bestRule fired, IsFirstStrongest fired best := by
  constructor
  · intro homes c settings p d hd
    have hscore := score?_of_eq_ok hd
    exact ⟨exists_best hscore, exists_reason hscore⟩
  · intro fired
    exact ⟨Number.firstMax_eq_none_iff,
      fun best hbest => firstStrongest_of_bestRule hbest⟩

/-- A profile for a namespace of a host, and for some host names. -/
def namespaceOrBox : Profile :=
  { name := "work", email := "a@work.example"
    repos := ["https://*/work/app"], hostPatterns := ["b*"] }

/-- A repository of that namespace, with the profile's address in its
configuration. -/
def workOnBox : Context :=
  { workingDir := Path.root
    remotes := .ofList [("origin", "https://git.example/work/app")]
    localConfig := .ofList [("user.email", "a@work.example")]
    hostname := "box" }

/-- The rule of the lowest tier sets the confidence, and the reason names
the two others. -/
theorem explanation_of_scoreProfile_work :
    (firedRules Path.adaAndBob workOnBox namespaceOrBox
        (Signal.enabled {})).map (·.map fun r => (r.name, r.confidence))
      = .ok [("remote_url", 0.8), ("hostname", 0.7), ("git_config", 1.0)]
      ∧ ∃ d, scoreProfile Path.adaAndBob workOnBox (Signal.enabled {})
          namespaceOrBox = .ok (some d)
        ∧ d.Explained ∧ d.confidence = 1.0
        ∧ d.bestRule.map (·.name) = some "git_config"
        ∧ d.reason = "Profile 'work' detected: repository URL matches, "
          ++ "hostname matches" := by
  refine ⟨by decide +kernel, ?_⟩
  have hsome : (score? Path.adaAndBob workOnBox (Signal.enabled {})
      namespaceOrBox).isSome = true := by
    decide +kernel
  obtain ⟨d, hscore⟩ := Option.isSome_iff_exists.1 hsome
  have hentries : namespaceOrBox.includeIfDirs = [] := by decide
  have hd : scoreProfile Path.adaAndBob workOnBox (Signal.enabled {})
      namespaceOrBox = .ok (some d) :=
    scoreProfile_eq_ok_iff.2
      ⟨fun _ => not_stumbles_of_nil hentries, hscore.symm⟩
  have hexplained := explanation_of_scoreProfile.1 _ _ _ _ d hd
  obtain ⟨confidence, hgreatest, rfl⟩ := Option.map_eq_some_iff.1 hscore
  have hconfidence : greatestConfidence (firing Path.adaAndBob workOnBox
      namespaceOrBox (Signal.enabled {})) = some 1.0 := by
    decide +kernel
  have hbest : (bestRule (firing Path.adaAndBob workOnBox namespaceOrBox
      (Signal.enabled {}))).map (·.name) = some "git_config" := by
    decide +kernel
  refine ⟨_, hd, hexplained, ?_, hbest, ?_⟩
  · rw [hgreatest] at hconfidence
    exact Option.some.inj hconfidence
  · show reason _ _ = _
    unfold reason topSummaries
    rw [List.mergeSort_of_pairwise (by decide +kernel)]
    decide +kernel

end GitPersona.Detection
