/-
The one match that is offered alone. It is the first of the sorted list
if it is good enough (`findBest?_eq`), whatever number of results is
asked for, so everything about it comes from two sources: where the
first of the list stands among all that profiles score
(`first_of_placed`), and which fields bring a score as high as that
(`Proofs/Lookup/Fields.lean`).

# What is offered

A name that is the query, letter case and outer blanks aside, is always
offered, since nothing else scores one (`bestMatch_of_name`). Without
one, the name has to come close or the user's name has to be the query;
other fields may raise a match in the list but never alone to the point
of being offered (`bestMatch_spec`).
-/
import GitPersona.Proofs.Lookup.Matches
import GitPersona.Proofs.Lookup.Fields
import GitPersona.Proofs.Settings.Decode

namespace GitPersona.Lookup

variable {m : Matcher} {query : String} {profiles : List Profile} {p : Profile}
    {r : Match}

-- ============================================================ the first

/-- The first of the sorted list has the greatest score of all that is listed,
and of those alike in score the least name, and of those alike in both the
first place. -/
theorem first_of_placed {i : Nat}
    (h : (placed m query profiles).head? = some (i, r)) :
    (∃ p, profiles[i]? = some p ∧ outcome? m query p = some r)
      ∧ ∀ j q s, profiles[j]? = some q → outcome? m query q = some s →
        s.score ≤ r.score ∧ (s.score = r.score →
          r.profile.name < s.profile.name
            ∨ r.profile.name = s.profile.name ∧ i ≤ j) := by
  have hmem : ∀ {j s}, (j, s) ∈ placed m query profiles
      ↔ ∃ q, profiles[j]? = some q ∧ outcome? m query q = some s :=
    Sorting.mem_placements_iff
  obtain ⟨rest, hlist⟩ := List.head?_eq_some_iff.1 h
  have hfirst : (i, r) ∈ placed m query profiles := by
    rw [hlist]
    exact List.mem_cons_self
  refine ⟨hmem.1 hfirst, fun j q s hq hs => ?_⟩
  have hother : (j, s) ∈ placed m query profiles := hmem.2 ⟨q, hq, hs⟩
  have horder : (placed m query profiles).Pairwise _ :=
    Sorting.pairwise_standing Match.score (·.profile.name) isNumber_of_outcome?
  rw [hlist] at hother horder
  rcases List.mem_cons.1 hother with hsame | hafter
  · cases hsame
    obtain ⟨p, -, hr⟩ := hmem.1 hfirst
    exact ⟨(isNumber_of_outcome? p r hr).le_iff.2 le_rfl,
      fun _ => Or.inr ⟨rfl, le_rfl⟩⟩
  · rcases (List.pairwise_cons.1 horder).1 _ hafter with hgt | ⟨heq, hname⟩
    · refine ⟨Number.le_of_lt hgt, fun hsame => ?_⟩
      rw [hsame] at hgt
      exact absurd (Number.le_of_lt hgt) (Number.not_le_of_lt hgt)
    · exact ⟨Number.ge_of_beq heq,
        fun _ => hname.imp_right (And.imp_right le_of_lt)⟩

/-- The match that is offered is the first of the sorted list, if it is
good enough. -/
theorem findBest?_eq (hquery : Text.strip query.toList ≠ [])
    (hcount : ∀ n ∈ m.settings.maxResults, 1 ≤ n) :
    m.findBest? query profiles
      = ((placed m query profiles).head?.map Prod.snd).filter
        Match.isHighConfidence := by
  obtain ⟨ranked, hranked⟩ : ∃ ranked,
    ranked = (placed m query profiles).map Prod.snd := ⟨_, rfl⟩
  have hhead : (m.findMatches query profiles).head? = ranked.head? := by
    rw [findMatches_eq hquery, ← hranked]
    split
    · next n hn =>
      have hpositive := hcount n (Option.mem_def.2 hn)
      rw [List.head?_take, if_neg (by omega)]
    · rfl
  rw [← List.head?_map, ← hranked, ← hhead]
  unfold Matcher.findBest?
  cases m.findMatches query profiles with
  | nil => rfl
  | cons best rest => rfl

theorem findBest?_eq_some (hquery : Text.strip query.toList ≠ [])
    (hcount : ∀ n ∈ m.settings.maxResults, 1 ≤ n)
    (h : m.findBest? query profiles = some r) :
    0.8 ≤ r.score ∧ ∃ i, (placed m query profiles).head? = some (i, r) := by
  rw [findBest?_eq hquery hcount, Option.filter_eq_some_iff,
    Option.map_eq_some_iff] at h
  obtain ⟨⟨⟨i, s⟩, hhead, rfl⟩, hhigh⟩ := h
  exact ⟨of_decide_eq_true hhigh, i, hhead⟩

/-- As soon as some profile is good enough to be offered, the first of the
sorted list is offered, and it is no worse. -/
theorem exists_findBest? (hquery : Text.strip query.toList ≠ [])
    (hcount : ∀ n ∈ m.settings.maxResults, 1 ≤ n) (hp : p ∈ profiles)
    (hr : m.scoreProfile query p = some r) (hmark : 0.8 ≤ r.score)
    (hfloor : m.settings.minScore ≤ r.score) :
    ∃ i best, (placed m query profiles).head? = some (i, best)
      ∧ m.findBest? query profiles = some best ∧ r.score ≤ best.score := by
  have hpositive : r.score > 0.0 := Number.lt_of_lt_of_le (by decide) hmark
  have houtcome : outcome? m query p = some r :=
    outcome?_eq_some_iff.2 ⟨hr, hpositive, hfloor⟩
  obtain ⟨j, hj⟩ := List.mem_iff_getElem?.1 hp
  have hmem : (j, r) ∈ placed m query profiles :=
    Sorting.mem_placements_iff.2 ⟨p, hj, houtcome⟩
  cases hhead : (placed m query profiles).head? with
  | none =>
      rw [List.head?_eq_none_iff] at hhead
      rw [hhead] at hmem
      cases hmem
  | some first =>
      obtain ⟨i, best⟩ := first
      have hle : r.score ≤ best.score :=
        ((first_of_placed hhead).2 j p r hj houtcome).1
      refine ⟨i, best, rfl, ?_, hle⟩
      rw [findBest?_eq hquery hcount, hhead]
      exact Option.filter_eq_some_iff.2
        ⟨rfl, decide_eq_true (Number.le_trans hmark hle)⟩

/-- What a profile scores without being listed is less than what is listed. -/
theorem lt_of_not_listed {s : Match}
    (hr : r.score > 0.0 ∧ r.score ≥ m.settings.minScore)
    (hs : m.scoreProfile query p = some s)
    (hnone : outcome? m query p ≠ some s) :
    s.score < r.score := by
  have hnumber := isNumber_scoreProfile hs
  rw [ne_eq, outcome?_eq_some_iff, not_and, not_and] at hnone
  by_cases hpositive : s.score > 0.0
  · have hfloor := (Number.isNumber_of_le hr.2).1
    exact Number.lt_of_lt_of_le
      (Number.lt_of_not_le hfloor hnumber (hnone hs hpositive)) hr.2
  · have hzero : Number.IsNumber 0.0 :=
      (Number.isNumber_of_le (Number.le_of_lt hr.1)).1
    exact Number.lt_of_le_of_lt (Number.le_of_not_lt hzero hnumber hpositive)
      hr.1

-- ======================================================== an exact name

theorem strip_ne_nil_of_mem_findMatches
    (h : r ∈ m.findMatches query profiles) :
    Text.strip query.toList ≠ [] := by
  intro hblank
  rw [findMatches_of_blank hblank] at h
  cases h

/-- What is found is what a profile scores. -/
theorem exists_of_mem_findMatches (h : r ∈ m.findMatches query profiles) :
    ∃ p ∈ profiles, m.scoreProfile query p = some r := by
  have hlisted : r ∈ (placed m query profiles).map Prod.snd := by
    rw [findMatches_eq (strip_ne_nil_of_mem_findMatches h)] at h
    split at h
    · exact List.mem_of_mem_take h
    · exact h
  obtain ⟨⟨i, r⟩, hmem, rfl⟩ := List.mem_map.1 hlisted
  obtain ⟨p, hp, houtcome⟩ := Sorting.mem_placements_iff.1 hmem
  exact ⟨p, List.mem_of_getElem? hp, (outcome?_eq_some_iff.1 houtcome).1⟩

/-- No floor is above the score of a name that is the query. -/
theorem outcome?_of_name (hceiling : m.settings.minScore ≤ 1.0)
    (halgorithms : m.algorithms ≠ [])
    (hon : m.settings.matchName = true) (hquery : Text.normalize query ≠ [])
    (hlength : query.length < 2 ^ 50) (hname : p.name.length < 2 ^ 50)
    (h : Text.normalize p.name = Text.normalize query) :
    ∃ s, outcome? m query p = some s ∧ s.score = 1.0 := by
  obtain ⟨s, hs, hmark⟩ :=
    (reaches_one_iff halgorithms hquery hlength hname).2 ⟨hon, h⟩
  have hpositive : s.score > 0.0 := Number.lt_of_lt_of_le (by decide) hmark
  have hfloor : s.score ≥ m.settings.minScore := Number.le_trans hceiling hmark
  refine ⟨s, outcome?_eq_some_iff.2 ⟨hs, hpositive, hfloor⟩, ?_⟩
  exact Number.eq_of_le_of_le hpositive (scoreProfile_le_one hs) hmark

/-- As soon as one name is the query, what is offered scores one. -/
theorem findBest?_of_name (hsettings : m.settings.Valid)
    (halgorithms : m.algorithms ≠ [])
    (hon : m.settings.matchName = true) (hquery : Text.normalize query ≠ [])
    (hlength : query.length < 2 ^ 50) (hname : p.name.length < 2 ^ 50)
    (hp : p ∈ profiles)
    (h : Text.normalize p.name = Text.normalize query) :
    ∃ i r, (placed m query profiles).head? = some (i, r)
      ∧ m.findBest? query profiles = some r ∧ r.score = 1.0 := by
  obtain ⟨s, hs, hscore⟩ :=
    outcome?_of_name hsettings.ceiling halgorithms hon hquery hlength hname h
  obtain ⟨hscored, -, hfloor⟩ := outcome?_eq_some_iff.1 hs
  have hmark : 0.8 ≤ s.score := by
    rw [hscore]
    decide
  obtain ⟨i, r, hhead, hbest, hle⟩ :=
    exists_findBest? (Text.normalize_eq_nil_iff.not.1 hquery)
    hsettings.count hp hscored hmark hfloor
  rw [hscore] at hle
  obtain ⟨⟨_, -, hr⟩, -⟩ := first_of_placed hhead
  have hatmost := scoreProfile_le_one (outcome?_eq_some_iff.1 hr).1
  exact ⟨i, r, hhead, hbest,
    (Number.eq_of_le_of_le (by decide) hle hatmost).symm⟩

/-- What is found with a score of one has the query for its name. -/
theorem name_of_mem_findMatches (halgorithms : m.algorithms ≠ [])
    (hlength : query.length < 2 ^ 50)
    (hnames : ∀ p ∈ profiles, p.name.length < 2 ^ 50)
    (hr : r ∈ m.findMatches query profiles)
    (hscore : r.score = 1.0) :
    Text.normalize r.profile.name = Text.normalize query
      ∧ Text.normalize r.profile.name ≠ [] := by
  have hquery := Text.normalize_eq_nil_iff.not.2
    (strip_ne_nil_of_mem_findMatches hr)
  obtain ⟨p, hp, hprofile⟩ := exists_of_mem_findMatches hr
  have hone : 1.0 ≤ r.score := by
    rw [hscore]
    decide
  have hname := ((reaches_one_iff halgorithms hquery hlength (hnames p hp)).1
    ⟨r, hprofile, hone⟩).2
  rw [(scoreProfile_spec hprofile).1, hname]
  exact ⟨rfl, hquery⟩

/-- A name that is the query, once both are trimmed and folded, is offered with
the score one: of several such names the least, and the first of the profiles
that have it. Nothing else scores one. -/
theorem bestMatch_of_name (hsettings : m.settings.Valid)
    (halgorithms : m.algorithms ≠ [])
    (hon : m.settings.matchName = true) (hlength : query.length < 2 ^ 50)
    (hnames : ∀ p ∈ profiles, p.name.length < 2 ^ 50) :
    ((∃ p ∈ profiles, Text.normalize p.name = Text.normalize query
      ∧ Text.normalize p.name ≠ []) →
        ∃ (i : Nat) (p : Profile) (r : Match), profiles[i]? = some p
          ∧ m.findBest? query profiles = some r
          ∧ m.scoreProfile query p = some r
          ∧ r.profile = p ∧ r.score = 1.0 ∧ r.isExact = true
          ∧ Text.normalize p.name = Text.normalize query
          ∧ ∀ (j : Nat) (q : Profile), profiles[j]? = some q →
              Text.normalize q.name = Text.normalize query →
              p.name < q.name ∨ p.name = q.name ∧ i ≤ j)
      ∧ ∀ r ∈ m.findMatches query profiles, r.score = 1.0 →
          Text.normalize r.profile.name = Text.normalize query
            ∧ Text.normalize r.profile.name ≠ [] := by
  constructor
  · rintro ⟨named, hnamed, hsame, hsome⟩
    have hquery : Text.normalize query ≠ [] := hsame ▸ hsome
    obtain ⟨i, r, hhead, hbest, hone⟩ :=
      findBest?_of_name hsettings halgorithms hon hquery hlength
      (hnames named hnamed) hnamed hsame
    obtain ⟨⟨p, hp, hr⟩, hfirst⟩ := first_of_placed hhead
    have hprofile := (outcome?_eq_some_iff.1 hr).1
    have howner := (scoreProfile_spec hprofile).1
    have hreached : 1.0 ≤ r.score := by
      rw [hone]
      decide
    have hexact : r.isExact = true := by
      unfold Match.isExact
      rw [hone]
      decide
    have hname := ((reaches_one_iff halgorithms hquery hlength
      (hnames p (List.mem_of_getElem? hp))).1 ⟨r, hprofile, hreached⟩).2
    refine ⟨i, p, r, hp, hbest, hprofile, howner, hone, hexact, hname, ?_⟩
    -- all that have such a name score the same, so that names and positions
    -- decide
    intro j q hq h
    obtain ⟨s, hs, hscore⟩ :=
      outcome?_of_name hsettings.ceiling halgorithms hon hquery hlength
      (hnames q (List.mem_of_getElem? hq)) h
    have howner' := (scoreProfile_spec (outcome?_eq_some_iff.1 hs).1).1
    rw [← howner, ← howner']
    exact (hfirst j q s hq hs).2 (hscore.trans hone.symm)
  · intro r hr hscore
    exact name_of_mem_findMatches halgorithms hlength hnames hr hscore

/-- Three profiles, two of which are named alike but for the
case of letters. -/
def workTwice : List Profile :=
  [{ name := "work", email := "a@work.example" },
    { name := "home", email := "a@home.example" },
    { name := "Work", email := "b@work.example" }]

/-- Of two names that are the query the least is offered. -/
theorem bestMatch_of_name_work :
    (∃ p ∈ workTwice, Text.normalize p.name = Text.normalize " WORK "
        ∧ Text.normalize p.name ≠ [])
      ∧ ∃ r, (Matcher.ofSettings {}).findBest? " WORK " workTwice = some r
        ∧ r.score = 1.0
        ∧ r.isExact = true ∧ r.profile.name = "Work" := by
  have hnamed : ∃ p ∈ workTwice,
      Text.normalize p.name = Text.normalize " WORK "
      ∧ Text.normalize p.name ≠ [] := by decide
  have hlength : " WORK ".length < 2 ^ 50 := by decide
  have hnames : ∀ p ∈ workTwice, p.name.length < 2 ^ 50 := by decide
  obtain ⟨i, p, r, hp, hbest, -, howner, hscore, hexact, hname, hleast⟩ :=
    (bestMatch_of_name (m := Matcher.ofSettings {})
      LookupSettings.valid_default (by decide) rfl
      hlength hnames).1 hnamed
  refine ⟨hnamed, r, hbest, hscore, hexact, ?_⟩
  have hother := hleast 2 _ rfl (by decide)
  rw [howner]
  have hmem := List.mem_of_getElem? hp
  simp only [workTwice, List.mem_cons, List.not_mem_nil, or_false] at hmem
  rcases hmem with rfl | rfl | rfl
  · rcases hother with hless | ⟨hsame, -⟩
    · exact absurd hless (by decide)
    · exact absurd hsame (by decide)
  · exact absurd hname (by decide)
  · rfl

-- =================================================== when one is offered

/-- A match is offered exactly when a profile's score reaches both `0.8`
and the floor. -/
theorem isSome_findBest?_iff (hquery : Text.strip query.toList ≠ [])
    (hcount : ∀ n ∈ m.settings.maxResults, 1 ≤ n) :
    (m.findBest? query profiles).isSome = true
      ↔ ∃ p ∈ profiles, ∃ r, m.scoreProfile query p = some r ∧ 0.8 ≤ r.score
        ∧ m.settings.minScore ≤ r.score := by
  rw [Option.isSome_iff_exists]
  constructor
  · rintro ⟨r, hbest⟩
    obtain ⟨hmark, i, hhead⟩ := findBest?_eq_some hquery hcount hbest
    obtain ⟨⟨p, hp, hr⟩, -⟩ := first_of_placed hhead
    obtain ⟨hprofile, -, hfloor⟩ := outcome?_eq_some_iff.1 hr
    exact ⟨p, List.mem_of_getElem? hp, r, hprofile, hmark, hfloor⟩
  · rintro ⟨p, hp, r, hr, hmark, hfloor⟩
    obtain ⟨i, best, -, hbest, -⟩ :=
      exists_findBest? hquery hcount hp hr hmark hfloor
    exact ⟨best, hbest⟩

/-- What is offered is what a profile scores, with the greatest score of all
profiles and the least name among those of that score. -/
theorem findBest?_greatest (hquery : Text.strip query.toList ≠ [])
    (hcount : ∀ n ∈ m.settings.maxResults, 1 ≤ n)
    (h : m.findBest? query profiles = some r) :
    (∃ p ∈ profiles, m.scoreProfile query p = some r)
      ∧ ∀ q ∈ profiles, ∀ s, m.scoreProfile query q = some s →
        s.score ≤ r.score ∧ (s.score = r.score → r.profile.name ≤ q.name) := by
  obtain ⟨-, i, hhead⟩ := findBest?_eq_some hquery hcount h
  obtain ⟨⟨p, hp, hr⟩, hfirst⟩ := first_of_placed hhead
  obtain ⟨hprofile, hpositive, hfloor⟩ := outcome?_eq_some_iff.1 hr
  refine ⟨⟨p, List.mem_of_getElem? hp, hprofile⟩, fun q hq s hs => ?_⟩
  by_cases hlisted : outcome? m query q = some s
  · obtain ⟨j, hj⟩ := List.mem_iff_getElem?.1 hq
    obtain ⟨hle, hname⟩ := hfirst j q s hj hlisted
    rw [← (scoreProfile_spec hs).1]
    exact ⟨hle, fun heq => (hname heq).elim le_of_lt fun hsame => hsame.1.le⟩
  · have hless := lt_of_not_listed ⟨hpositive, hfloor⟩ hs hlisted
    refine ⟨Number.le_of_lt hless, fun heq => ?_⟩
    rw [heq] at hless
    exact absurd (Number.le_of_lt hless) (Number.not_le_of_lt hless)

/-- The first result does not depend on how many are asked for. -/
theorem findBest?_withMaxResults (hquery : Text.strip query.toList ≠ [])
    (hcount : ∀ n ∈ m.settings.maxResults, 1 ≤ n) {k : Option Int}
    (hk : ∀ n ∈ k, 1 ≤ n) :
    (m.withMaxResults k).findBest? query profiles
      = m.findBest? query profiles := by
  rw [findBest?_eq hquery hk, findBest?_eq hquery hcount]
  rfl

/-- A single match is offered exactly when a profile's score reaches both `0.8`
and the floor. It is then of the greatest score of all and of the least name
among those, whatever number of results is asked for. A score of `0.8` takes a
name that comes as close, or a user's name that is the query. -/
theorem bestMatch_spec (hsettings : m.settings.Valid)
    (halgorithms : m.algorithms ≠ [])
    (hquery : Text.strip query.toList ≠ []) (hlength : query.length < 2 ^ 50)
    (husers : ∀ p ∈ profiles, ∀ user ∈ p.userName, user.length < 2 ^ 50) :
    ((m.findBest? query profiles).isSome = true
        ↔ ∃ p ∈ profiles, ∃ r, m.scoreProfile query p = some r ∧ 0.8 ≤ r.score
          ∧ m.settings.minScore ≤ r.score)
      ∧ (∀ r, m.findBest? query profiles = some r →
          m.Decides query r.profile
            ∧ (∃ p ∈ profiles, m.scoreProfile query p = some r)
            ∧ ∀ q ∈ profiles, ∀ s, m.scoreProfile query q = some s →
              s.score ≤ r.score ∧ (s.score = r.score →
                r.profile.name ≤ q.name))
      ∧ (∀ k : Option Int, (∀ n ∈ k, 1 ≤ n) →
          (m.withMaxResults k).findBest? query profiles
            = m.findBest? query profiles)
      ∧ ∀ p ∈ profiles,
          (∃ r, m.scoreProfile query p = some r ∧ 0.8 ≤ r.score)
            ↔ m.Decides query p := by
  have hmarks : ∀ p ∈ profiles,
      (∃ r, m.scoreProfile query p = some r ∧ 0.8 ≤ r.score)
        ↔ m.Decides query p := fun p hp =>
    reaches_mark_iff halgorithms (Text.normalize_eq_nil_iff.not.2 hquery)
      hlength (husers p hp)
  refine ⟨isSome_findBest?_iff hquery hsettings.count, fun r h => ?_,
    fun k hk => ?_, hmarks⟩
  · have hgreatest := findBest?_greatest hquery hsettings.count h
    refine ⟨?_, hgreatest⟩
    obtain ⟨p, hp, hprofile⟩ := hgreatest.1
    rw [(scoreProfile_spec hprofile).1]
    exact (hmarks p hp).1
      ⟨r, hprofile, (findBest?_eq_some hquery hsettings.count h).1⟩
  · exact findBest?_withMaxResults hquery hsettings.count hk

/-- Two profiles that know the same person, one as its user and
one by e-mail. -/
def knowAda : List Profile :=
  [{ name := "home", email := "a@home.example", userName := some "Ada" },
    { name := "work", email := "ada" }]

/-- The user's name is enough to be offered, the e-mail is not. -/
theorem bestMatch_spec_ada :
    Text.strip "ADA".toList ≠ []
      ∧ ∃ r, (Matcher.ofSettings {}).findBest? "ADA" knowAda = some r
        ∧ r.profile.name = "home" := by
  have hquery : Text.strip "ADA".toList ≠ [] := by decide
  have hlength : "ADA".length < 2 ^ 50 := by decide
  have husers : ∀ p ∈ knowAda, ∀ user ∈ p.userName, user.length < 2 ^ 50 := by
    decide
  obtain ⟨hoffered, hbest, -, hmarks⟩ :=
    bestMatch_spec (m := Matcher.ofSettings {}) LookupSettings.valid_default
      (by decide) hquery
      hlength husers
  refine ⟨hquery, ?_⟩
  have hhome : knowAda[0] ∈ knowAda := List.getElem_mem _
  obtain ⟨s, hs, hmark⟩ :=
    (hmarks _ hhome).2 (Or.inr ⟨rfl, "Ada", rfl, by decide⟩)
  have hfloor : (Matcher.ofSettings {}).settings.minScore ≤ s.score :=
    Number.le_trans (by decide) hmark
  obtain ⟨r, hr⟩ := Option.isSome_iff_exists.1
    (hoffered.2 ⟨_, hhome, s, hs, hmark, hfloor⟩)
  refine ⟨r, hr, ?_⟩
  obtain ⟨hdecides, ⟨p, hp, hscored⟩, -⟩ := hbest r hr
  rw [(scoreProfile_spec hscored).1] at hdecides ⊢
  simp only [knowAda, List.mem_cons, List.not_mem_nil, or_false] at hp
  rcases hp with rfl | rfl
  · rfl
  · have hnone : scoreField (Matcher.ofSettings {}).algorithms "ADA" "work"
        .name = none := by
      decide +kernel
    rcases hdecides with ⟨-, fm, hname, -⟩ | ⟨-, user, huser, -⟩
    · rw [hnone] at hname
      cases hname
    · cases huser

end GitPersona.Lookup
