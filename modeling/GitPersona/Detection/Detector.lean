/-
A detector: detection with a memory. It keeps the rankings it has
computed, each under a key that covers the context, the profiles and
the settings, so that an answer from memory is the answer that would be
computed.
-/
import GitPersona.Detection.Ranking
import GitPersona.Cache

namespace GitPersona.Detection

-- =============================================================== what it sees

/-- What a detector finds when it is asked. -/
structure Surroundings where
  place : Place
  profiles : List Profile
  repository : Repository
  hostname : String
  /-- The reading of its clock, in seconds. -/
  now : Float
  /-- The complaint of the JSON writer about a profile that it refuses. A text
  of a profile may hold half of a surrogate pair, which can be compared and
  matched but has no encoding; no character here stands for it. -/
  refusal? : Profile → Option String := fun _ => none

/-- What a ranking is remembered under: the signatures of the context and of
the profiles, and the settings in compact form. -/
structure RankingKey where
  context : String
  profiles : String
  settings : List Char
  deriving DecidableEq, Repr

/-- The key of the ranking of some profiles for a context. -/
def RankingKey.of (c : Context) (profiles : List Profile)
    (settings : DetectionSettings) :
    RankingKey :=
  ⟨c.signature, Profile.listSignature profiles, settings.compact⟩

/-- The key of the ranking of the profiles for a context, unless one of
them cannot be written. -/
def Surroundings.key (s : Surroundings) (c : Context)
    (settings : DetectionSettings) : Except Fault RankingKey :=
  match s.profiles.findSome? s.refusal? with
  | some complaint => .error (.mishap (.unwritable complaint))
  | none => .ok (.of c s.profiles settings)

/-- The ranking of the profiles for a context. -/
def Surroundings.rank (s : Surroundings) (c : Context)
    (settings : DetectionSettings) : Except Fault (List Detected) :=
  (Detection.rank s.place.homes c settings s.profiles).mapError Fault.ofDefect

/-- Its settings and what it remembers. -/
structure Detector where
  settings : DetectionSettings
  memory : Cache RankingKey (List Detected)

namespace Detector

/-- A detector that remembers nothing yet. -/
def new (settings : DetectionSettings) : Detector :=
  { settings
    memory :=
      { lifetime := settings.cacheTtlSeconds
        capacity := settings.cacheMaxEntries } }

-- =================================================================== rankings

/-- What came of asking for a ranking, whether it was computed for this
answer, and the detector afterwards. -/
structure Answer where
  ranking : Except Fault (List Detected)
  computed : Bool
  detector : Detector

/-- Computes a ranking and puts it into the memory. -/
def remember (d : Detector) (s : Surroundings) (c : Context)
    (settings : DetectionSettings) (key : RankingKey) : Answer :=
  match s.rank c settings with
  | .error f => { ranking := .error f, computed := true, detector := d }
  | .ok ranking =>
    match d.memory.set s.now key ranking (some settings.cacheTtlSeconds) with
    | .error f => { ranking := .error f, computed := true, detector := d }
    | .ok memory =>
      { ranking := .ok ranking, computed := true,
        detector := { d with memory } }

/-- Ranks the profiles for a context, from memory if it can. The settings
given for this question replace the detector's own, except for the number of
rankings it keeps. -/
def rankContext (d : Detector) (s : Surroundings) (c : Context)
    (override : Option DetectionSettings) : Answer :=
  let settings := override.getD d.settings
  if settings.enableCache then
    match s.key c settings with
    | .error f => { ranking := .error f, computed := false, detector := d }
    | .ok key =>
      match d.memory.get s.now key with
      | (some ranking, memory) =>
        { ranking := .ok ranking, computed := false
          detector := { d with memory } }
      | (none, memory) => { d with memory }.remember s c settings key
  else
    { ranking := s.rank c settings, computed := true, detector := d }

/-- Ranks the profiles for a directory, the current one when
there is no path. -/
def detectAll (d : Detector) (s : Surroundings) (path : Option String)
    (override : Option DetectionSettings) : Answer :=
  match Context.extract s.place s.repository s.hostname path with
  | .error f => { ranking := .error f, computed := false, detector := d }
  | .ok c => d.rankContext s c override

/-- The best profile of a ranking, for a context that is known: a fault
when there is none. -/
def bestFor (d : Detector) (c : Context)
    (override : Option DetectionSettings) :
    List Detected → Except Fault Detected
  | best :: _ => .ok best
  | [] =>
    .error (.noProfileMatches c.workingDir
      (override.getD d.settings).minConfidence)

/-- The detector without memories. -/
def clearMemory (d : Detector) : Detector :=
  { d with memory := d.memory.clear }

end Detector

end GitPersona.Detection
