/-
Scoring and ranking profiles. A profile is as likely as its strongest
signal makes it: signals are never added up, and a tier orders the
explanation without changing a confidence. A ranking holds the profiles
that reach the floor, best first, equally good ones by name, and
profiles alike in both as they came.
-/
import GitPersona.Detection.Signal
import GitPersona.Choice

namespace GitPersona.Detection

-- ================================================================ fired rules

/-- A rule that fired for a profile. -/
structure Fired where
  name : String
  tier : Tier
  confidence : Float
  evidence : String := ""

/-- The first rule has more confidence, or as much from a higher tier. -/
def Fired.exceeds (a b : Fired) : Bool :=
  a.confidence > b.confidence
    || (a.confidence == b.confidence && a.tier.level > b.tier.level)

/-- The rule that set the confidence: the first greatest one by
confidence, then tier. -/
def bestRule (fired : List Fired) : Option Fired :=
  firstMax Fired.exceeds fired

-- =============================================================== explanation

/-- The first rule comes no later in an explanation: it is of a higher tier, or
of the same tier with at least as much confidence. -/
def Fired.precedes (a b : Fired) : Bool :=
  a.tier.level > b.tier.level
    || (a.tier.level == b.tier.level && a.confidence ≥ b.confidence)

/-- The two rules that an explanation names, those of them that
have a summary. -/
def topSummaries (fired : List Fired) : List String :=
  ((fired.mergeSort Fired.precedes).take 2).filterMap fun r =>
    (Signal.ofName? r.name).map Signal.summary

/-- One line that says why a profile was detected. -/
def reason (p : Profile) (fired : List Fired) : String :=
  let lead := "Profile '" ++ p.name ++ "' detected"
  match topSummaries fired with
  | [] => lead
  | parts => lead ++ ": " ++ ", ".intercalate parts

-- ==================================================================== scoring

/-- A profile chosen for a context, with what speaks for it. -/
structure Detected where
  profile : Profile
  /-- The confidence of the strongest rule. -/
  confidence : Float
  /-- Every rule that fired, in evaluation order. -/
  fired : List Fired
  /-- One line on the two rules that count for most. -/
  reason : String

namespace Detected

/-- The evidence of every rule that fired. -/
def reasons (d : Detected) : List String :=
  d.fired.map (·.evidence)

/-- The rule that set the confidence. -/
def bestRule (d : Detected) : Option Fired :=
  Detection.bestRule d.fired

end Detected

/-- The rule that a signal fires as. -/
def Signal.rule (s : Signal) (f : Finding) : Fired :=
  { name := s.name, tier := s.tier, confidence := clamp f.confidence
    evidence := f.evidence }

/-- The rules that fire for a profile, in the order of the signals. -/
def firedRules (homes : Homes) (c : Context) (p : Profile)
    (signals : List Signal) : Except Path.Defect (List Fired) :=
  signals.filterMapM fun s => (s.evaluate homes c p).map (·.map s.rule)

/-- The greatest confidence among fired rules. -/
def greatestConfidence (fired : List Fired) : Option Float :=
  firstMax (fun x y : Float => x > y) (fired.map (·.confidence))

/-- What rules that fired make of a profile; nothing if there are none. -/
def assess (p : Profile) (fired : List Fired) : Option Detected :=
  (greatestConfidence fired).map fun confidence =>
    { profile := p, confidence, fired, reason := reason p fired }

/-- A profile scored against a context by some signals; nothing if none
of them fires. -/
def scoreProfile (homes : Homes) (c : Context) (signals : List Signal)
    (p : Profile) : Except Path.Defect (Option Detected) :=
  (firedRules homes c p signals).map (assess p)

-- ==================================================================== ranking

/-- The first detection comes no later in a ranking: it has more confidence, or
as much with a name that is not greater. -/
def Detected.precedes (a b : Detected) : Bool :=
  a.confidence > b.confidence
    || (a.confidence == b.confidence
      && decide (a.profile.name ≤ b.profile.name))

/-- The detections that reach the floor of the settings, in the order of
the profiles. -/
def candidates (homes : Homes) (c : Context) (settings : DetectionSettings)
    (profiles : List Profile) : Except Path.Defect (List Detected) :=
  (profiles.filterMapM (scoreProfile homes c (Signal.enabled settings))).map
    (·.filter (·.confidence ≥ settings.minConfidence))

/-- Every profile that reaches the floor of the settings, best first. -/
def rank (homes : Homes) (c : Context) (settings : DetectionSettings)
    (profiles : List Profile) : Except Path.Defect (List Detected) :=
  (candidates homes c settings profiles).map
    (·.mergeSort Detected.precedes)

end GitPersona.Detection
