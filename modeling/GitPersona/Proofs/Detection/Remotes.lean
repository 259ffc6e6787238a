/-
The remote rule is a first greatest score. Among all pairs of a URL and
a pattern it fires for the one that scores highest, for the first of
several, and is silent only when no pair scores at all
(`remoteUrl_firstBest`).

# The order of the pairs

The URLs come by the names of their remotes, a fetch URL before the push
URL of the same remote, and for each URL the patterns come as the
profile has them. Names are keys of a map, so no two URLs can change
places (`listsUrls_remoteUrls`), and the order in which either map was
filled is forgotten. The rule runs over the pairs as one list; that the
first greatest pair has the first URL that can attain the score, and the
first pattern that does so there, is
`Number.FirstGreatest.exists_of_flatMap`.
-/
import GitPersona.Proofs.Detection.Patterns
import GitPersona.Proofs.Detection.Observation

namespace GitPersona

-- ================================================== statement vocabulary

namespace Context

/-- What is fetched from a remote. -/
def FetchUrl (c : Context) (name url : String) : Prop :=
  c.remotes.get? name = some url

/-- What is pushed to a remote, where that is set, not empty and different from
what is fetched. -/
def PushUrl (c : Context) (name url : String) : Prop :=
  ∃ fetch, c.FetchUrl name fetch
    ∧ c.localConfig.get? ("remote." ++ name ++ ".pushurl") = some url
    ∧ url ≠ "" ∧ url ≠ fetch

/-- Every URL of a context, with the name of its remote: by name, the
fetch URL first. -/
structure ListsUrls (c : Context) (urls : List (String × String)) : Prop where
  mem : ∀ name url, (name, url) ∈ urls
    ↔ c.FetchUrl name url ∨ c.PushUrl name url
  order : urls.Pairwise fun r s =>
    r.1 < s.1 ∨ r.1 = s.1 ∧ c.FetchUrl r.1 r.2 ∧ c.PushUrl s.1 s.2

end Context

/-- A finding about the first pair of a URL and a pattern that attains the
greatest score. -/
structure Detection.FirstBest (urls : List (String × String))
    (patterns : List String)
    (f : Finding) : Prop where
  greatest : ∀ r ∈ urls, ∀ q ∈ patterns, scoreUrl q r.2 ≤ f.confidence
  first : ∃ before name url after earlier pattern later,
    urls = before ++ (name, url) :: after
      ∧ patterns = earlier ++ pattern :: later
      ∧ f.confidence = scoreUrl pattern url
      ∧ f.evidence = "remote '" ++ name ++ "' (" ++ url ++ ") matches '"
        ++ pattern ++ "'"
      ∧ (∀ r ∈ before, ∀ q ∈ patterns, scoreUrl q r.2 < f.confidence)
      ∧ ∀ q ∈ earlier, scoreUrl q url < f.confidence

-- ================================================================ the URLs

namespace Context

variable {c d : Context}

/-- A remote has a push address that is set, not empty and not its own. -/
theorem pushUrl?_eq_some_iff {name fetch url : String} :
    c.pushUrl? name fetch = some url
      ↔ c.localConfig.get? ("remote." ++ name ++ ".pushurl") = some url
        ∧ url ≠ "" ∧ url ≠ fetch := by
  unfold pushUrl?
  cases c.localConfig.get? ("remote." ++ name ++ ".pushurl") with
  | none => simp
  | some set =>
      show (if set = "" ∨ set = fetch then none else some set) = some url ↔ _
      rw [Option.ite_none_left_eq_some, not_or, Option.some.injEq]
      constructor
      · rintro ⟨hset, rfl⟩
        exact ⟨rfl, hset⟩
      · rintro ⟨rfl, hset⟩
        exact ⟨hset, rfl⟩

/-- Each remote gives its own address and then its push address. -/
theorem remoteUrls_eq_flatMap (c : Context) :
    c.remoteUrls = c.remotes.sorted.flatMap fun e =>
      e :: (c.pushUrl? e.1 e.2).toList.map fun push => (e.1, push) := by
  unfold remoteUrls
  congr 1
  funext e
  obtain ⟨name, url⟩ := e
  dsimp only
  cases c.pushUrl? name url with
  | none => rfl
  | some push => rfl

/-- The address of a remote is one to fetch from. -/
theorem fetchUrl_of_mem {e : String × String} (he : e ∈ c.remotes.sorted) :
    c.FetchUrl e.1 e.2 :=
  Bindings.mem_sorted_iff.1 he

/-- What follows a fetch URL is a push URL of the same remote. -/
theorem pushUrl_of_mem {e r : String × String} (he : e ∈ c.remotes.sorted)
    (hr : r ∈ (c.pushUrl? e.1 e.2).toList.map fun push => (e.1, push)) :
    e.1 = r.1 ∧ c.PushUrl r.1 r.2 := by
  obtain ⟨push, hpush, rfl⟩ := List.mem_map.1 hr
  exact ⟨rfl, e.2, fetchUrl_of_mem he,
    pushUrl?_eq_some_iff.1 (Option.mem_toList.1 hpush)⟩

/-- The remote addresses are those to fetch from and to push to. -/
theorem mem_remoteUrls_iff {name url : String} :
    (name, url) ∈ c.remoteUrls ↔ c.FetchUrl name url ∨ c.PushUrl name url := by
  rw [remoteUrls_eq_flatMap, List.mem_flatMap]
  constructor
  · rintro ⟨e, he, hmem⟩
    rcases List.mem_cons.1 hmem with rfl | hpush
    · exact Or.inl (fetchUrl_of_mem he)
    · exact Or.inr (pushUrl_of_mem he hpush).2
  · rintro (hfetch | ⟨fetch, hfetch, hpush⟩)
    · exact ⟨_, Bindings.mem_sorted_iff.2 hfetch, List.mem_cons_self⟩
    · refine ⟨_, Bindings.mem_sorted_iff.2 hfetch, List.mem_cons_of_mem _ ?_⟩
      exact List.mem_map.2
        ⟨url, Option.mem_toList.2 (pushUrl?_eq_some_iff.2 hpush), rfl⟩

/-- The remote addresses stand by the names of the remotes, those to
fetch from first. -/
theorem pairwise_remoteUrls (c : Context) : c.remoteUrls.Pairwise fun r s =>
    r.1 < s.1 ∨ r.1 = s.1 ∧ c.FetchUrl r.1 r.2 ∧ c.PushUrl s.1 s.2 := by
  rw [remoteUrls_eq_flatMap, List.pairwise_flatMap]
  constructor
  · intro e he
    refine List.pairwise_cons.2 ⟨fun r hr => ?_, ?_⟩
    · obtain ⟨hname, hpush⟩ := pushUrl_of_mem he hr
      exact Or.inr ⟨hname, fetchUrl_of_mem he, hpush⟩
    · cases c.pushUrl? e.1 e.2 with
      | none => exact List.Pairwise.nil
      | some push => exact List.pairwise_singleton _ _
  · have hname : ∀ {e r : String × String},
        r ∈ e :: (c.pushUrl? e.1 e.2).toList.map (fun push => (e.1, push)) →
          r.1 = e.1 := by
      intro e r hr
      rcases List.mem_cons.1 hr with rfl | hr
      · rfl
      · obtain ⟨push, -, rfl⟩ := List.mem_map.1 hr
        rfl
    refine c.remotes.pairwise_sorted_lt.imp fun hlt r hr s hs => Or.inl ?_
    rw [hname hr, hname hs]
    exact hlt

/-- The URLs of a context, in the order in which signals go through them. -/
theorem listsUrls_remoteUrls (c : Context) : c.ListsUrls c.remoteUrls :=
  ⟨fun _ _ => mem_remoteUrls_iff, c.pairwise_remoteUrls⟩

/-- The order in which remotes and configuration were filled does not count. -/
theorem remoteUrls_of_perm
    (hremotes : c.remotes.entries.Perm d.remotes.entries)
    (hconfig : c.localConfig.entries.Perm d.localConfig.entries) :
    c.remoteUrls = d.remoteUrls := by
  refine remoteUrls_eq (Bindings.sorted_eq_of_perm hremotes) fun e _ => ?_
  unfold pushUrl?
  rw [Bindings.get?_eq_of_perm hconfig]

end Context

namespace Detection

open Number (IsNumber FirstGreatest)

-- =============================================================== the pairs

variable {c : Context} {p : Profile}

/-- What is said about a pair of a URL and a pattern. -/
def pairFinding (r : String × String) (pattern : String) : Finding :=
  { confidence := scoreUrl pattern r.2
    evidence := "remote '" ++ r.1 ++ "' (" ++ r.2 ++ ") matches '" ++ pattern
      ++ "'" }

/-- The rule on remotes takes the strongest pair of an address
and a pattern. -/
theorem remoteUrl_eq_strongest (c : Context) (p : Profile) :
    remoteUrl c p = strongest
      (c.remoteUrls.flatMap fun r => p.repos.map (pairFinding r)) :=
  rfl

theorem forall_mem_pairs_iff {urls : List (String × String)}
    {patterns : List String}
    {P : Finding → Prop} :
    (∀ f ∈ urls.flatMap fun r => patterns.map (pairFinding r), P f)
      ↔ ∀ r ∈ urls, ∀ pattern ∈ patterns, P (pairFinding r pattern) := by
  simp only [List.forall_mem_flatMap, List.forall_mem_map]

/-- The confidence of a pair is a number. -/
theorem isNumber_pairs {urls : List (String × String)}
    {patterns : List String} :
    ∀ f ∈ urls.flatMap fun r => patterns.map (pairFinding r),
      IsNumber f.confidence :=
  forall_mem_pairs_iff.2 fun r _ pattern _ => isNumber_scoreUrl pattern r.2

/-- The first greatest of all pairs is found at the first URL that can attain
its score, and at the first pattern that does so there. -/
theorem firstBest_of_firstGreatest {urls : List (String × String)}
    {patterns : List String}
    {f : Finding}
    (h : FirstGreatest (fun g : Finding => Number.line g.confidence)
      (urls.flatMap fun r => patterns.map (pairFinding r)) f) :
        FirstBest urls patterns f := by
  have hgreatest : ∀ r ∈ urls, ∀ q ∈ patterns, scoreUrl q r.2 ≤ f.confidence :=
    forall_mem_pairs_iff.1 fun g hg => (isNumber_pairs g hg).le_iff.2 (h.le hg)
  obtain ⟨before, ⟨name, url⟩, after, hurls, hhere, hbefore⟩ :=
    h.exists_of_flatMap
  obtain ⟨pattern, rfl, earlier, later, hpatterns, hearlier, -⟩ :=
    hhere.exists_of_map
  refine ⟨hgreatest, before, name, url, after, earlier, pattern, later, hurls,
    hpatterns, rfl, rfl,
    fun r hr q hq => ?_, fun q hq => ?_⟩
  · exact (isNumber_scoreUrl q r.2).lt_iff.2
      (hbefore r hr (pairFinding r q) (List.mem_map_of_mem hq))
  · exact (isNumber_scoreUrl q url).lt_iff.2 (hearlier q hq)

-- ============================================================== main result

/-- The remote rule is silent exactly when no pair of a URL and a pattern
scores. Otherwise it is as sure as the best pair is and names the first such
pair, URLs in the order of their remotes' names and fetch before push, then
patterns in the order of the profile. The order in which the remotes and the
configuration were filled does not count. -/
theorem remoteUrl_firstBest (c : Context) (p : Profile) :
    c.ListsUrls c.remoteUrls
      ∧ (remoteUrl c p = none
          ↔ ∀ r ∈ c.remoteUrls, ∀ pattern ∈ p.repos,
            ¬0.0 < scoreUrl pattern r.2)
      ∧ (∀ f, remoteUrl c p = some f →
          0.0 < f.confidence ∧ FirstBest c.remoteUrls p.repos f)
      ∧ ∀ d : Context, c.remotes.entries.Perm d.remotes.entries →
          c.localConfig.entries.Perm d.localConfig.entries →
            remoteUrl c p = remoteUrl d p := by
  refine ⟨c.listsUrls_remoteUrls, ?_, fun f hf => ?_,
    fun d hremotes hconfig => ?_⟩
  · rw [remoteUrl_eq_strongest, strongest_eq_none_iff, forall_mem_pairs_iff]
    rfl
  · obtain ⟨hpositive, hfirst⟩ := firstGreatest_of_strongest isNumber_pairs hf
    exact ⟨hpositive, firstBest_of_firstGreatest hfirst⟩
  · exact remoteUrl_congr (Context.remoteUrls_of_perm hremotes hconfig) rfl

/-- A profile for a host, and for one repository there. -/
def hostAndRepository : Profile :=
  { name := "work", email := "a@work.example"
    repos := ["*git.example/*", "https://git.example/a/b"] }

/-- The same remotes, filled in the other order. -/
def twoRemotesReversed : Context :=
  { twoRemotes with
    remotes := .ofList
      [("backup", "https://git.example/c"),
        ("origin", "https://git.example/a/b")] }

/-- Both remotes fit the first pattern, and the one that also fits the
second is named. -/
theorem remoteUrl_hostAndRepository :
    ∃ f, remoteUrl twoRemotes hostAndRepository = some f
    ∧ 1.0 ≤ f.confidence
    ∧ FirstBest twoRemotes.remoteUrls hostAndRepository.repos f
    ∧ remoteUrl twoRemotesReversed hostAndRepository = some f := by
  obtain ⟨hlists, hsilent, hfires, horder⟩ :=
    remoteUrl_firstBest twoRemotes hostAndRepository
  have hfetch : twoRemotes.FetchUrl "origin" "https://git.example/a/b" := by
    unfold Context.FetchUrl
    decide
  have hurl : ("origin", "https://git.example/a/b") ∈ twoRemotes.remoteUrls :=
    (hlists.mem _ _).2 (Or.inl hfetch)
  have hpattern : "https://git.example/a/b" ∈ hostAndRepository.repos := by
    decide
  have hscore : (0.0 : Float) < 1.0
      ∧ (1.0 : Float) ≤ scoreUrl "https://git.example/a/b"
        "https://git.example/a/b" := by
    decide +kernel
  cases hf : remoteUrl twoRemotes hostAndRepository with
  | none =>
      exact absurd (Number.lt_of_lt_of_le hscore.1 hscore.2)
        (hsilent.1 hf _ hurl _ hpattern)
  | some f =>
      obtain ⟨-, hbest⟩ := hfires f hf
      refine ⟨f, rfl, Number.le_trans hscore.2
        (hbest.greatest _ hurl _ hpattern), hbest, ?_⟩
      rw [← hf]
      exact (horder twoRemotesReversed (by decide) (by decide)).symm

end Detection

end GitPersona
