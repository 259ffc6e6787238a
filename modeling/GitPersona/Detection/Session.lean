/-
A session with a detector: questions are put to it one after another
while its surroundings change and time goes by. An event is a question
or a change. What a session answers depends on everything that happened
before; what it would answer without a memory depends only on the
surroundings of the moment.
-/
import GitPersona.Detection.Detector

namespace GitPersona.Detection

-- ================================================================== questions

/-- What a detector can be asked. -/
inductive Question
  /-- The best profile for the current directory. -/
  | best
  /-- The best profile for a directory. -/
  | bestIn (path : String)
  /-- Every profile for a directory, the current one when there is no path. -/
  | all (path : Option String)
  /-- The best profile for a context that is known. There has to be one. -/
  | bestFor (c : Context)
  /-- Every profile for a context that is known. -/
  | allFor (c : Context)

/-- What a question is answered with. -/
inductive Response
  | one (d : Option Detected)
  | many (ds : List Detected)

namespace Detector

/-- A question that has been put: its response, whether a ranking was computed
for it, and the detector afterwards. -/
structure Asked where
  response : Except Fault Response
  computed : Bool
  detector : Detector

/-- The response that an answer comes to. -/
def Answer.respond (a : Answer)
    (response : List Detected → Except Fault Response) : Asked :=
  ⟨a.ranking >>= response, a.computed, a.detector⟩

/-- Puts a question to a detector. -/
def ask (d : Detector) (s : Surroundings)
    (override : Option DetectionSettings) :
    Question → Asked
  | .best =>
    (d.detectAll s none override).respond fun ranking =>
      .ok (.one ranking.head?)
  | .bestIn path =>
    (d.detectAll s (some path) override).respond fun ranking =>
      .ok (.one ranking.head?)
  | .all path => (d.detectAll s path override).respond fun ranking =>
      .ok (.many ranking)
  | .bestFor c =>
    (d.rankContext s c override).respond fun ranking =>
      (d.bestFor c override ranking).map fun best => .one (some best)
  | .allFor c => (d.rankContext s c override).respond fun ranking =>
      .ok (.many ranking)

end Detector

-- ===================================================================== events

/-- Something that happens during a session. -/
inductive Event
  /-- A question, with the settings given for it. -/
  | asked (q : Question) (override : Option DetectionSettings)
  /-- The store holds other profiles. -/
  | profilesChanged (ps : List Profile)
  /-- The repository has other signals. -/
  | repositoryChanged (r : Repository)
  /-- The machine has another name. -/
  | hostnameChanged (name : String)
  /-- Another directory is the current one. -/
  | moved (cwd : Path)
  /-- The clock goes on. -/
  | passed (seconds : Float)
  /-- The memory is cleared. -/
  | forgotten

/-- The surroundings after an event. The home directory stays where it is. -/
def Surroundings.after (s : Surroundings) : Event → Surroundings
  | .asked _ _ => s
  | .profilesChanged ps => { s with profiles := ps }
  | .repositoryChanged r => { s with repository := r }
  | .hostnameChanged name => { s with hostname := name }
  | .moved cwd => { s with place := { s.place with cwd } }
  | .passed seconds => { s with now := s.now + seconds }
  | .forgotten => s

-- =================================================================== sessions

/-- A detector in its surroundings. -/
structure Session where
  surroundings : Surroundings
  detector : Detector

namespace Session

/-- A session with a detector that remembers nothing yet. -/
def start (settings : DetectionSettings) (s : Surroundings) : Session :=
  ⟨s, .new settings⟩

/-- The question of an event, put to the detector. -/
def asked? (x : Session) : Event → Option Detector.Asked
  | .asked q override => some (x.detector.ask x.surroundings override q)
  | _ => none

/-- The session after an event. -/
def after (x : Session) (e : Event) : Session :=
  { surroundings := x.surroundings.after e
    detector :=
      match e with
      | .asked q override =>
          (x.detector.ask x.surroundings override q).detector
      | .forgotten => x.detector.clearMemory
      | _ => x.detector }

/-- The responses to the questions of a list of events, in order. -/
def responses (x : Session) : List Event → List (Except Fault Response)
  | [] => []
  | e :: es => ((x.asked? e).map (·.response)).toList
      ++ (x.after e).responses es

end Session

end GitPersona.Detection
