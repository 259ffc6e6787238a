/-
How looking at a directory ends. It gives the context of the canonical
directory, with exactly what the repository says about it, or a fault
that is reported with the text of the call that failed first
(`Extraction`, `Repository.Raises`). Two faults go unreported, over a path
that is given up before anything is asked of the repository: one that
starts in a home directory that is not known (`Path.Homeless`), and one
with a NUL (`Place.HoldsNul`). A question about a directory is given up
where looking at the directory is, and is otherwise the business of the
ranking.

`extraction_outcome` says all this at once. Its parts are the functions
that a question goes through: normalizing the path, observing the
repository, and then ranking, which a detector with room for a ranking
refuses for reasons of its own only.
-/
import GitPersona.Proofs.Detection.Memory
import GitPersona.Proofs.Path.Canonical

namespace GitPersona

-- ================================================== statement vocabulary

/-- A path starts in the home directory of a user, or in the own one if no
name follows the tilde, that the system knows none of, or one that starts
with a tilde itself. -/
structure Path.Homeless (homes : Homes) (p : Path) : Prop where
  relative : p.anchor = .relative
  unknown : ∃ user names, p.parts = ("~" ++ user) :: names
    ∧ nul ∉ user.toList
    ∧ ∀ home, homes.of? user = some home → ['~'] <+: home.toList

/-- A NUL is in the name of the user that a path starts with, or in a
name that is passed once the home directory is expanded and the path is
made absolute. -/
inductive Place.HoldsNul (place : Place) (p : Path) : Prop
  | user {user : String} {names : List String} :
      p.anchor = .relative → p.parts = ("~" ++ user) :: names →
      nul ∈ user.toList → place.HoldsNul p
  | names {base : Path} :
      p.expandHome place.homes = .ok base →
      Path.NulIn (place.cwd.join base).parts → place.HoldsNul p

/-- A repository fails over a directory with a cause, for which a fault is
raised. Whether the directory is inside a working tree is asked first, and
only of one that is, the remotes and then the local configuration. -/
inductive Repository.Raises (r : Repository) (directory : Path) :
    Fault → Fault → Prop
  | inside {cause : Fault} :
      r.isInsideWorkTree directory = .error cause →
      r.Raises directory cause (.inspectionFailed directory cause.text)
  | remotes {cause : Fault} :
      r.isInsideWorkTree directory = .ok true →
      r.remotes directory = .error cause →
      r.Raises directory cause (.signalsUnreadable directory cause.text)
  | localConfig {cause : Fault} {remotes : Bindings} :
      r.isInsideWorkTree directory = .ok true →
      r.remotes directory = .ok remotes →
      r.localConfig directory = .error cause →
      r.Raises directory cause (.signalsUnreadable directory cause.text)

/-- What the surroundings make of a path whose context is asked for. -/
inductive Extraction (s : Detection.Surroundings) (path : String) :
    Except Fault Context → Prop
  | homeless :
      (Path.parse path).Homeless s.place.homes →
      Extraction s path (.error (.ofDefect .homeUnknown))
  | nul :
      s.place.HoldsNul (Path.parse path) →
      Extraction s path (.error (.ofDefect .nullByte))
  | outside {directory : Path} :
      Path.normalize s.place.homes s.place.cwd path = .ok directory →
      s.repository.isInsideWorkTree directory = .ok false →
      Extraction s path (.error (.outsideRepository directory))
  | raised {directory : Path} {cause f : Fault} :
      Path.normalize s.place.homes s.place.cwd path = .ok directory →
      s.repository.Raises directory cause f → Extraction s path (.error f)
  | seen {directory : Path} {remotes localConfig : Bindings} :
      Path.normalize s.place.homes s.place.cwd path = .ok directory →
      s.repository.isInsideWorkTree directory = .ok true →
      s.repository.remotes directory = .ok remotes →
      s.repository.localConfig directory = .ok localConfig →
      Extraction s path (.ok
        { workingDir := directory, remotes, localConfig
          hostname := s.hostname })

/-- The user is told that extraction failed, with some details or none. -/
def Fault.TellsOfExtraction (f : Fault) (details : Option String) : Prop :=
  ∃ report, f.report? = some report ∧ report.trouble = .contextExtraction
    ∧ report.details = details

-- ================================================= paths that are given up

namespace Path

variable {homes : Homes} {place : Place} {cwd p : Path} {s : String}
  {defect : Defect}

/-- A home directory is not known, or the name of its user is refused. -/
theorem expandHome_eq_error_cases (h : p.expandHome homes = .error defect) :
    (defect = .homeUnknown ∧ p.Homeless homes)
      ∨ defect = .nullByte ∧ ∀ cwd, Place.HoldsNul ⟨homes, cwd⟩ p := by
  obtain ⟨hrelative, user, names, hparts, hdirectory⟩ :=
    expandHome_eq_error_iff.1 h
  rcases directory_eq_error_iff.1 hdirectory with ⟨hnul, hdefect⟩
    | ⟨hnul, hdefect, hhome⟩
  · exact Or.inr ⟨hdefect, fun cwd => .user hrelative hparts hnul⟩
  · exact Or.inl ⟨hdefect, hrelative, user, names, hparts, hnul, hhome⟩

theorem Homeless.expandHome_eq (h : p.Homeless homes) :
    p.expandHome homes = .error .homeUnknown := by
  obtain ⟨hrelative, user, names, hparts, hnul, hhome⟩ := h
  have hdirectory : homes.directory user = .error .homeUnknown :=
    directory_eq_error_iff.2 (Or.inr ⟨hnul, rfl, hhome⟩)
  exact expandHome_eq_error_iff.2 ⟨hrelative, user, names, hparts, hdirectory⟩

/-- A text has a canonical path unless it starts in a home directory that
is not known. -/
theorem normalize_eq_homeUnknown_iff :
    normalize homes cwd s = .error .homeUnknown
      ↔ (parse s).Homeless homes := by
  rw [normalize_eq_error_iff]
  constructor
  · rintro (hexpand | ⟨base, -, hresolve⟩)
    · rcases expandHome_eq_error_cases hexpand with ⟨-, hhomeless⟩ | ⟨hne, -⟩
      · exact hhomeless
      · cases hne
    · -- what is expanded can be refused over a NUL alone
      cases (resolve_eq_error_iff.1 hresolve).1
  · exact fun h => Or.inl h.expandHome_eq

/-- Or a NUL is in it. -/
theorem normalize_eq_nullByte_iff :
    normalize place.homes place.cwd s = .error .nullByte
      ↔ place.HoldsNul (parse s) := by
  rw [normalize_eq_error_iff]
  constructor
  · rintro (hexpand | ⟨base, hbase, hresolve⟩)
    · rcases expandHome_eq_error_cases hexpand with ⟨hne, -⟩ | ⟨-, hnul⟩
      · cases hne
      · exact hnul place.cwd
    · exact .names hbase (resolve_eq_error_iff.1 hresolve).2
  · intro h
    cases h with
    | user hrelative hparts hnul =>
        have hdirectory : place.homes.directory _ = .error .nullByte :=
          directory_eq_error_iff.2 (Or.inl ⟨hnul, rfl⟩)
        exact Or.inl (expandHome_eq_error_iff.2
          ⟨hrelative, _, _, hparts, hdirectory⟩)
    | names hbase hnul =>
        exact Or.inr ⟨_, hbase, resolve_eq_error_iff.2 ⟨rfl, hnul⟩⟩

end Path

-- ================================================ looking at a directory

variable {r : Repository} {directory : Path} {hostname : String}
  {cause f : Fault}

/-- What is raised for a cause gives its text as details. -/
theorem Repository.Raises.tells (h : r.Raises directory cause f) :
    f.TellsOfExtraction (some cause.text) := by
  cases h with
  | inside _ => exact ⟨_, rfl, rfl, rfl⟩
  | remotes _ _ => exact ⟨_, rfl, rfl, rfl⟩
  | localConfig _ _ _ => exact ⟨_, rfl, rfl, rfl⟩

theorem observe_eq_ok_iff {c : Context} :
    Context.observe r hostname directory = .ok c ↔
      ∃ remotes localConfig, r.isInsideWorkTree directory = .ok true
        ∧ r.remotes directory = .ok remotes
        ∧ r.localConfig directory = .ok localConfig
        ∧ c = { workingDir := directory, remotes, localConfig, hostname } := by
  unfold Context.observe
  cases hinside : r.isInsideWorkTree directory with
  | error cause => simp
  | ok inside =>
      cases inside with
      | false => simp
      | true =>
          cases hremotes : r.remotes directory with
          | error cause => simp
          | ok remotes =>
              cases hconfig : r.localConfig directory with
              | error cause => simp
              | ok localConfig => simp [eq_comm]

theorem observe_eq_error_iff :
    Context.observe r hostname directory = .error f ↔
      (r.isInsideWorkTree directory = .ok false
          ∧ f = .outsideRepository directory)
        ∨ ∃ cause, r.Raises directory cause f := by
  constructor
  · intro h
    unfold Context.observe at h
    split at h
    · next cause hinside =>
      cases h
      exact Or.inr ⟨cause, .inside hinside⟩
    · next hinside =>
      cases h
      exact Or.inl ⟨hinside, rfl⟩
    · next hinside =>
      split at h
      · cases h
      · next cause hremotes =>
        cases h
        exact Or.inr ⟨cause, .remotes hinside hremotes⟩
      · next remotes cause hremotes hconfig =>
        cases h
        exact Or.inr ⟨cause, .localConfig hinside hremotes hconfig⟩
  · intro h
    unfold Context.observe
    rcases h with ⟨hinside, rfl⟩ | ⟨cause, hraises⟩
    · rw [hinside]
    · cases hraises with
      | inside hinside => rw [hinside]
      | remotes hinside hremotes => rw [hinside, hremotes]
      | localConfig hinside hremotes hconfig =>
          rw [hinside, hremotes, hconfig]

-- ============================================================ extraction

variable {s : Detection.Surroundings} {path : Option String}

theorem extract_of_normalize_error {defect : Path.Defect}
    (h : Path.normalize s.place.homes s.place.cwd
      (path.getD s.place.cwd.text) = .error defect) :
    Context.extract s.place s.repository s.hostname path
      = .error (.ofDefect defect) := by
  unfold Context.extract Place.normalize
  rw [h]
  rfl

theorem extract_of_normalize_ok
    (h : Path.normalize s.place.homes s.place.cwd
      (path.getD s.place.cwd.text) = .ok directory) :
    Context.extract s.place s.repository s.hostname path
      = Context.observe s.repository s.hostname directory := by
  unfold Context.extract Place.normalize
  rw [h]
  rfl

/-- Extraction comes to what the surroundings make of the path, and to
nothing else. -/
theorem extract_eq_iff {x : Except Fault Context} :
    Context.extract s.place s.repository s.hostname path = x
      ↔ Extraction s (path.getD s.place.cwd.text) x := by
  constructor
  · rintro rfl
    cases hpath : Path.normalize s.place.homes s.place.cwd
        (path.getD s.place.cwd.text) with
    | error defect =>
        rw [extract_of_normalize_error hpath]
        cases defect with
        | homeUnknown =>
            exact .homeless (Path.normalize_eq_homeUnknown_iff.1 hpath)
        | nullByte => exact .nul (Path.normalize_eq_nullByte_iff.1 hpath)
    | ok directory =>
        rw [extract_of_normalize_ok hpath]
        cases hobserve :
            Context.observe s.repository s.hostname directory with
        | error f =>
            rcases observe_eq_error_iff.1 hobserve with ⟨hinside, rfl⟩
              | ⟨cause, hraises⟩
            · exact .outside hpath hinside
            · exact .raised hpath hraises
        | ok c =>
            obtain ⟨remotes, localConfig, hinside, hremotes, hconfig, rfl⟩ :=
              observe_eq_ok_iff.1 hobserve
            exact .seen hpath hinside hremotes hconfig
  · intro h
    cases h with
    | homeless h =>
        exact extract_of_normalize_error
          (Path.normalize_eq_homeUnknown_iff.2 h)
    | nul h =>
        exact extract_of_normalize_error
          (Path.normalize_eq_nullByte_iff.2 h)
    | outside hpath hinside =>
        rw [extract_of_normalize_ok hpath]
        exact observe_eq_error_iff.2 (Or.inl ⟨hinside, rfl⟩)
    | raised hpath hraises =>
        rw [extract_of_normalize_ok hpath]
        exact observe_eq_error_iff.2 (Or.inr ⟨_, hraises⟩)
    | seen hpath hinside hremotes hconfig =>
        rw [extract_of_normalize_ok hpath]
        exact observe_eq_ok_iff.2
          ⟨_, _, hinside, hremotes, hconfig, rfl⟩

theorem Extraction.tells {path : String} (h : Extraction s path (.error f)) :
    (∃ defect, f = .ofDefect defect)
      ∨ ∃ details, f.TellsOfExtraction details := by
  cases h with
  | homeless _ => exact Or.inl ⟨_, rfl⟩
  | nul _ => exact Or.inl ⟨_, rfl⟩
  | outside _ _ => exact Or.inr ⟨none, _, rfl, rfl, rfl⟩
  | raised _ hraises => exact Or.inr ⟨_, hraises.tells⟩

-- ============================================ questions about directories

namespace Detection

variable {x : Detector} {override : Option DetectionSettings}
  {q : Question}

/-- The directory that a question is about, the current one when there is
no path; a question about a context that is known is about none. -/
def Question.directory? : Question → Option (Option String)
  | .best => some none
  | .bestIn path => some (some path)
  | .all path => some path
  | .bestFor _ => none
  | .allFor _ => none

theorem contextFor_of_directory? (hq : q.directory? = some path) :
    s.contextFor q
      = Context.extract s.place s.repository s.hostname path := by
  cases q with
  | best => cases hq; rfl
  | bestIn path => cases hq; rfl
  | all path => cases hq; rfl
  | bestFor c => cases hq
  | allFor c => cases hq

/-- A ranking that is not made fails over an entry or over a profile that
cannot be written. -/
theorem rankContext_eq_error {c : Context} (hroom : 1 ≤ x.memory.capacity)
    (h : (x.rankContext s c override).ranking = .error f) :
    f = .ofDefect .nullByte
      ∨ ∃ complaint, f = .mishap (.unwritable complaint) := by
  have hdefect : ∀ {settings : DetectionSettings},
      s.rank c settings = .error f → f = .ofDefect .nullByte := by
    intro settings hrank
    unfold Surroundings.rank at hrank
    cases hranked : rank s.place.homes c settings s.profiles with
    | ok ranking =>
        rw [hranked] at hrank
        cases hrank
    | error defect =>
        rw [hranked] at hrank
        cases hrank
        rw [(rank_eq_error_iff.1 hranked).1]
  have hranks := Detector.ranks_rankContext hroom s c override
  generalize x.rankContext s c override = a at hranks h
  cases hranks with
  | uncached _ => exact Or.inl (hdefect h)
  | unwritable _ _ =>
      cases h
      exact Or.inr ⟨_, rfl⟩
  | recalled _ _ _ _ _ _ _ => cases h
  | failed _ _ hrank _ _ =>
      cases h
      exact Or.inl (hdefect hrank)
  | stored _ _ _ _ _ _ => cases h

-- =========================================================== main result

/-- Looking at a directory gives the context of its canonical path, with
exactly what the repository says of it, or a fault that is reported with
the text of the first call that failed; only a home directory that is not
known, or a NUL in the path, ends it without a report. A question about a
directory fails exactly as looking at the directory does, and leaves the
detector as it was; otherwise it is answered by ranking for the context
that was seen, which fails over a NUL in an entry or over a profile that
cannot be written, and over nothing else. -/
theorem extraction_outcome (s : Surroundings) (path : Option String) :
    (∀ outcome,
        Context.extract s.place s.repository s.hostname path = outcome
          ↔ Extraction s (path.getD s.place.cwd.text) outcome)
      ∧ (∀ f,
          Context.extract s.place s.repository s.hostname path = .error f →
          (∃ defect, f = .ofDefect defect)
            ∨ ∃ details, f.TellsOfExtraction details)
      ∧ (∀ directory cause f, s.repository.Raises directory cause f →
          f.TellsOfExtraction (some cause.text))
      ∧ ∀ (x : Detector) (override : Option DetectionSettings)
          (q : Question),
          1 ≤ x.memory.capacity → q.directory? = some path →
          (∀ f, Context.extract s.place s.repository s.hostname path
              = .error f → x.ask s override q = ⟨.error f, false, x⟩)
            ∧ ∀ c, Context.extract s.place s.repository s.hostname path
                = .ok c →
              (x.ask s override q).response
                  = (x.rankContext s c override).ranking
                    >>= (q.respond (override.getD x.settings) ·)
                ∧ ∀ f, (x.rankContext s c override).ranking = .error f →
                  f = .ofDefect .nullByte
                    ∨ ∃ complaint, f = .mishap (.unwritable complaint) := by
  refine ⟨fun outcome => extract_eq_iff,
    fun f hf => (extract_eq_iff.1 hf).tells,
    fun directory cause f hraises => hraises.tells, ?_⟩
  intro x override q hroom hq
  refine ⟨fun f hf => ?_, fun c hc => ⟨?_, fun f hf => ?_⟩⟩
  · rw [← contextFor_of_directory? hq] at hf
    exact Detector.ask_of_context_error hf
  · rw [← contextFor_of_directory? hq] at hc
    rw [Detector.ask_of_context_ok hc]
    rfl
  · exact rankContext_eq_error hroom hf

/-- Surroundings in which the remotes can be read and the local
configuration cannot. -/
def lockedConfig : Surroundings where
  place := { homes := Path.adaAndBob, cwd := .root }
  profiles := []
  repository :=
    { isInsideWorkTree := fun _ => .ok true
      remotes := fun _ => .ok ∅
      localConfig := fun _ => .error (.gitNotStarted "Permission denied") }
  hostname := "laptop"
  now := 0.0

/-- The question for a directory below a home then fails with the text
of that call. -/
theorem ask_lockedConfig :
    ((Detector.new {}).ask lockedConfig none (.bestIn "~bob/api")).response
        = .error (.signalsUnreadable (Path.parse "/srv/bob/api")
          (Fault.gitNotStarted "Permission denied").text)
      ∧ (Fault.signalsUnreadable (Path.parse "/srv/bob/api")
          (Fault.gitNotStarted "Permission denied").text).TellsOfExtraction
            (some (Fault.gitNotStarted "Permission denied").text) := by
  have hpath : Path.normalize lockedConfig.place.homes
      lockedConfig.place.cwd "~bob/api"
        = .ok (Path.parse "/srv/bob/api") := by
    decide +kernel
  have hraises : lockedConfig.repository.Raises (Path.parse "/srv/bob/api")
      (.gitNotStarted "Permission denied")
      (.signalsUnreadable (Path.parse "/srv/bob/api")
        (Fault.gitNotStarted "Permission denied").text) :=
    .localConfig rfl rfl rfl
  obtain ⟨houtcome, -, htells, hask⟩ :=
    extraction_outcome lockedConfig (some "~bob/api")
  obtain ⟨hresponse, -⟩ :=
    hask (.new {}) none (.bestIn "~bob/api") (by decide) rfl
  rw [hresponse _ ((houtcome _).2 (.raised hpath hraises))]
  exact ⟨rfl, htells _ _ _ hraises⟩

/-- A path that starts in the home directory of a user nobody knows of
ends extraction without a report. -/
theorem extract_of_unknownUser :
    Context.extract lockedConfig.place lockedConfig.repository
        lockedConfig.hostname (some "~nosuchuser/api")
        = .error (.ofDefect .homeUnknown)
      ∧ (Fault.ofDefect .homeUnknown).report? = none := by
  have hparts : (Path.parse "~nosuchuser/api").parts
      = ("~" ++ "nosuchuser") :: ["api"] := by
    decide +kernel
  have hhomeless : (Path.parse "~nosuchuser/api").Homeless
      lockedConfig.place.homes :=
    ⟨by decide +kernel, "nosuchuser", ["api"], hparts, by decide,
      fun home hhome => by cases hhome⟩
  exact ⟨extract_eq_iff.2 (.homeless hhomeless), rfl⟩

end Detection

end GitPersona
