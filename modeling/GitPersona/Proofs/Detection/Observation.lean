/-
What detection sees of a context: the directory, the host name, the
identity that the configuration sets and the URLs, each of them a
reading of the context. Each signal reads some of them, and some lists
of the profile (`remoteUrl_congr` and those after it). Contexts that
agree in all readings are alike to every signal
(`evaluate_eq_of_alike`), hence to a ranking (`rank_eq_of_alike`). The
order in which the keys of the two maps came is not among the readings:
what the payload of a signature tells is enough (`Alike.of_sorted`).

# What is never read

Of the configuration detection looks up three kinds of keys, and none of
them unless it is the identity's or belongs to a remote that is there.
`Context.TellsAlike` asks two contexts to agree on these lookups alone;
whatever else the configuration holds stays without effect
(`rank_unrelated`).
-/
import GitPersona.Detection.Ranking
import GitPersona.Proofs.Bindings
import GitPersona.Proofs.Path.Canonical
import Mathlib.Data.List.Basic

namespace GitPersona

-- ========================================================= alike contexts

/-- Contexts that agree in everything that signals read. -/
structure Context.Alike (c d : Context) : Prop where
  workingDir : c.workingDir = d.workingDir
  hostname : c.hostname = d.hostname
  email : c.currentEmail = d.currentEmail
  name : c.currentName = d.currentName
  urls : c.remoteUrls = d.remoteUrls

/-- Contexts of the same directory, host and remotes, whose configurations
agree on the identity and on the push URLs of these remotes. -/
structure Context.TellsAlike (c d : Context) : Prop where
  workingDir : c.workingDir = d.workingDir
  hostname : c.hostname = d.hostname
  remotes : ∀ name, c.remotes.get? name = d.remotes.get? name
  email : c.localConfig.get? "user.email" = d.localConfig.get? "user.email"
  name : c.localConfig.get? "user.name" = d.localConfig.get? "user.name"
  push : ∀ name, (c.remotes.get? name).isSome = true →
    c.localConfig.get? ("remote." ++ name ++ ".pushurl")
      = d.localConfig.get? ("remote." ++ name ++ ".pushurl")

variable {c d : Context}

/-- The remote addresses go by the remotes and their push addresses. -/
theorem Context.remoteUrls_eq (hremotes : c.remotes.sorted = d.remotes.sorted)
    (hpush : ∀ e ∈ d.remotes.sorted, c.pushUrl? e.1 e.2 = d.pushUrl? e.1 e.2) :
    c.remoteUrls = d.remoteUrls := by
  unfold Context.remoteUrls
  rw [hremotes]
  apply List.flatMap_congr
  intro e he
  obtain ⟨name, url⟩ := e
  dsimp only
  rw [hpush (name, url) he]

/-- A signal reads nothing but these lookups. -/
theorem Context.TellsAlike.alike (h : c.TellsAlike d) : c.Alike d := by
  refine ⟨h.workingDir, h.hostname, h.email, h.name, ?_⟩
  refine Context.remoteUrls_eq (Bindings.sorted_eq_iff.2 h.remotes) fun e he =>
    ?_
  have hurl : c.remotes.get? e.1 = some e.2 := by
    rw [h.remotes]
    exact Bindings.mem_sorted_iff.1 he
  unfold Context.pushUrl?
  rw [h.push e.1 (by rw [hurl, Option.isSome_some])]

/-- Maps with the same pairs in key order make contexts alike. -/
theorem Context.Alike.of_sorted (hdir : c.workingDir = d.workingDir)
    (hhost : c.hostname = d.hostname)
    (hremotes : c.remotes.sorted = d.remotes.sorted)
    (hconfig : c.localConfig.sorted = d.localConfig.sorted) : c.Alike d := by
  have hget := Bindings.get?_eq_of_sorted_eq hconfig
  apply Context.TellsAlike.alike
  exact ⟨hdir, hhost, Bindings.get?_eq_of_sorted_eq hremotes, hget _, hget _,
    fun _ _ => hget _⟩

namespace Detection

-- ====================================================== what a signal reads

variable {p q : Profile}

/-- The rule on remotes reads the remote addresses and the repositories. -/
theorem remoteUrl_congr (hurls : c.remoteUrls = d.remoteUrls)
    (hrepos : p.repos = q.repos) :
    remoteUrl c p = remoteUrl d q := by
  unfold remoteUrl
  rw [hurls, hrepos]

/-- The rule on entries reads the working directory and the entries. -/
theorem includeIfDir_congr (homes : Homes) (hdir : c.workingDir = d.workingDir)
    (hdirs : p.includeIfDirs = q.includeIfDirs) :
    includeIfDir homes c p = includeIfDir homes d q := by
  unfold includeIfDir
  rw [hdir, hdirs]

/-- The rule on paths reads the working directory and the patterns. -/
theorem directoryPath_congr (hdir : c.workingDir = d.workingDir)
    (hpatterns : p.matchPatterns = q.matchPatterns) :
    directoryPath c p = directoryPath d q := by
  unfold directoryPath Context.ancestors
  rw [hdir, hpatterns]

/-- The rule on hosts reads the host and its patterns. -/
theorem hostname_congr (hhost : c.hostname = d.hostname)
    (hpatterns : p.hostPatterns = q.hostPatterns) :
    hostname c p = hostname d q := by
  unfold hostname
  rw [hhost, hpatterns]

/-- The rule on the git configuration reads names and addresses. -/
theorem gitConfig_congr (hemail : c.currentEmail = d.currentEmail)
    (hname : c.currentName = d.currentName) (hemails : p.email = q.email)
    (hnames : p.userName = q.userName) : gitConfig c p = gitConfig d q := by
  unfold gitConfig
  rw [hemail, hname, hemails, hnames]

-- ======================================================== through a ranking

/-- A rule has the same outcome in contexts that are alike. -/
theorem evaluate_eq_of_alike (h : c.Alike d) (homes : Homes) (p : Profile)
    (s : Signal) :
    s.evaluate homes c p = s.evaluate homes d p := by
  cases s with
  | remoteUrl => exact congrArg _ (remoteUrl_congr h.urls rfl)
  | includeIfDir => exact includeIfDir_congr homes h.workingDir rfl
  | directoryPath => exact congrArg _ (directoryPath_congr h.workingDir rfl)
  | hostname => exact congrArg _ (hostname_congr h.hostname rfl)
  | gitConfig => exact congrArg _ (gitConfig_congr h.email h.name rfl rfl)

/-- A profile scores the same in contexts that are alike. -/
theorem scoreProfile_eq_of_alike (h : c.Alike d) (homes : Homes)
    (signals : List Signal)
    (p : Profile) : scoreProfile homes c signals p
    = scoreProfile homes d signals p := by
  have hfired : firedRules homes c p signals
      = firedRules homes d p signals := by
    unfold firedRules
    simp only [evaluate_eq_of_alike h]
  unfold scoreProfile
  rw [hfired]

/-- Contexts that are alike have one ranking. -/
theorem rank_eq_of_alike (h : c.Alike d) (homes : Homes)
    (settings : DetectionSettings)
    (ps : List Profile) :
    rank homes c settings ps = rank homes d settings ps := by
  have hscore : scoreProfile homes c (Signal.enabled settings)
      = scoreProfile homes d (Signal.enabled settings) :=
    funext (scoreProfile_eq_of_alike h homes _)
  unfold rank candidates
  rw [hscore]

-- =============================================================== main result

/-- What the configuration holds besides the identity and the push URLs of the
remotes that are there, and the order in which either map was filled, changes
nothing about a ranking. -/
theorem rank_unrelated (homes : Homes) (settings : DetectionSettings)
    (profiles : List Profile)
    (h : c.TellsAlike d) :
    rank homes c settings profiles = rank homes d settings profiles :=
  rank_eq_of_alike h.alike homes settings profiles

/-- A repository of two remotes. -/
def twoRemotes : Context :=
  { workingDir := .root
    remotes := .ofList [("origin", "https://git.example/a/b"),
      ("backup", "https://git.example/c")]
    localConfig := .ofList
      [("user.email", "a@work.example"),
        ("remote.origin.pushurl", "ssh://git.example/a/b")] }

/-- The same remotes in the other order, in a configuration that holds more: a
key that nothing reads, and the push URL of a remote that is not there. -/
def twoRemotesAndMore : Context :=
  { workingDir := .root
    remotes := .ofList [("backup", "https://git.example/c"),
      ("origin", "https://git.example/a/b")]
    localConfig := .ofList
      [("core.bare", "false"),
        ("remote.origin.pushurl", "ssh://git.example/a/b"),
        ("remote.gone.pushurl", "https://git.example/gone"),
        ("user.email", "a@work.example")] }

/-- A profile for the remote that is not there. -/
def goneProfile : Profile :=
  { name := "gone", email := "a@work.example",
    repos := ["https://git.example/gone"] }

theorem rank_unrelated_twoRemotes :
    twoRemotes.TellsAlike twoRemotesAndMore
      ∧ twoRemotesAndMore.localConfig.get? "remote.gone.pushurl"
        = some "https://git.example/gone"
      ∧ rank Path.adaAndBob twoRemotes {} [goneProfile]
        = rank Path.adaAndBob twoRemotesAndMore {} [goneProfile] := by
  have hremotes : twoRemotes.remotes.entries.Perm
      twoRemotesAndMore.remotes.entries := by decide
  have hnames : ∀ e ∈ twoRemotes.remotes.entries, e.1 = "origin"
      ∨ e.1 = "backup" := by decide
  have htells : twoRemotes.TellsAlike twoRemotesAndMore := by
    refine ⟨rfl, rfl, Bindings.get?_eq_of_perm hremotes, by decide, by decide,
      fun name hname => ?_⟩
    obtain ⟨url, hurl⟩ := Option.isSome_iff_exists.1 hname
    rcases hnames _ (Bindings.get?_eq_some_iff.1 hurl) with
      rfl | rfl <;> decide
  exact ⟨htells, by decide,
    rank_unrelated Path.adaAndBob {} [goneProfile] htells⟩

end Detection

end GitPersona
