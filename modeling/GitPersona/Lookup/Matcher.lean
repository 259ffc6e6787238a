/-
Looking profiles up by a query. Every searched field is scored with
every algorithm and keeps the best score; a profile is as good as its
best field, weighted by how decisive a match on that field is.
-/
import GitPersona.Lookup.Similarity
import GitPersona.Profile

namespace GitPersona.Lookup

-- ==================================================================== fields

/-- The fields of a profile that lookup can search. -/
inductive Field
  | name
  | userName
  | email
  | vaultName
  | sshKeyTitle
  deriving DecidableEq, Repr

namespace Field

/-- Every field, in order. -/
def all : List Field :=
  [.name, .userName, .email, .vaultName, .sshKeyTitle]

/-- The name of a field. -/
def key : Field → String
  | .name => "name"
  | .userName => "user_name"
  | .email => "email"
  | .vaultName => "vault_name"
  | .sshKeyTitle => "ssh_key_title"

/-- The name of a field as users see it. -/
def displayName : Field → String
  | .name => "name"
  | .userName => "user name"
  | .email => "email"
  | .vaultName => "vault name"
  | .sshKeyTitle => "SSH key title"

/-- How decisive a match on the field is. -/
def weight : Field → Float
  | .name => 1.0
  | .userName => 0.8
  | .email => 0.6
  | .vaultName => 0.4
  | .sshKeyTitle => 0.3

/-- The setting that has the field searched. -/
def flag (f : Field) : String :=
  "match_" ++ f.key

/-- The field of a name. -/
def ofKey? (key : String) : Option Field :=
  all.find? (·.key == key)

/-- The settings have the field searched. -/
def isOn (settings : LookupSettings) : Field → Bool
  | .name => settings.matchName
  | .userName => settings.matchUserName
  | .email => settings.matchEmail
  | .vaultName => settings.matchVaultName
  | .sshKeyTitle => settings.matchSshKeyTitle

/-- What a profile holds in the field. -/
def valueOf (p : Profile) : Field → Option String
  | .name => some p.name
  | .userName => p.userName
  | .email => some p.email
  | .vaultName => p.vaultName
  | .sshKeyTitle => p.sshKeyTitle

end Field

-- ============================================================= field matches

/-- How well a query fits one field. -/
structure FieldMatch where
  field : Field
  /-- The score before weighting. -/
  score : Float
  /-- The query, when it stands in the field as it is. -/
  matchedText : Option String := none
  /-- The algorithm that gave the score. -/
  algorithm : Option Algorithm := none

/-- The score of a field match, weighted. -/
def FieldMatch.weightedScore (m : FieldMatch) : Float :=
  m.score * m.field.weight

/-- The first field match has the greater weighted score. -/
def FieldMatch.exceeds (a b : FieldMatch) : Bool :=
  a.weightedScore > b.weightedScore

/-- The first algorithm that gives the greatest score, and that score, if it
is positive. -/
def bestAlgorithm (algorithms : List Algorithm) (query value : String) :
    Option (Algorithm × Float) :=
  let scored := algorithms.map fun a => (a, score a query value)
  firstMax (fun x y => x.2 > y.2) (scored.filter fun x => x.2 > 0.0)

/-- A query scored against a field's value; nothing when every
algorithm gives zero. -/
def scoreField (algorithms : List Algorithm) (query value : String)
    (field : Field) :
    Option FieldMatch :=
  (bestAlgorithm algorithms query value).map fun (algorithm, score) =>
    { field, score, algorithm := some algorithm
      matchedText :=
        if occursIn (Text.normalize query) (Text.normalize value) then
          some query
        else none }

-- =================================================================== matches

/-- A profile scored against a query. -/
structure Match where
  profile : Profile
  score : Float
  algorithm : Option Algorithm
  fieldMatches : List FieldMatch

namespace Match

/-- The query is as good as the profile's name. -/
def isExact (m : Match) : Bool :=
  m.score ≥ 0.99

/-- The match is good enough to be offered alone. -/
def isHighConfidence (m : Match) : Bool :=
  m.score ≥ 0.8

/-- The field that set the score: the first of the greatest weighted score. -/
def primaryField (m : Match) : Option FieldMatch :=
  firstMax FieldMatch.exceeds m.fieldMatches

/-- The first match comes no later among results: its score is greater, or as
great with a name that is not greater. -/
def precedes (a b : Match) : Bool :=
  a.score > b.score
    || (a.score == b.score && decide (a.profile.name ≤ b.profile.name))

end Match

-- =================================================================== matcher

/-- What lookup goes by: its settings, and the algorithms, which may replace
those of the settings. -/
structure Matcher where
  settings : LookupSettings
  algorithms : List Algorithm

namespace Matcher

/-- A matcher that uses the algorithms of its settings. -/
def ofSettings (settings : LookupSettings) : Matcher :=
  ⟨settings, settings.algorithms⟩

/-- The fields that are searched, in order. -/
def fields (m : Matcher) : List Field :=
  Field.all.filter (·.isOn m.settings)

/-- The fields of a profile that fit a query. Absent and empty values
fit nothing. -/
def fieldMatches (m : Matcher) (query : String) (p : Profile) :
    List FieldMatch :=
  m.fields.filterMap fun f =>
    match f.valueOf p with
    | some value =>
      if value = "" then none else scoreField m.algorithms query value f
    | none => none

/-- A profile scored against a query; nothing when no field fits. -/
def scoreProfile (m : Matcher) (query : String) (p : Profile) : Option Match :=
  let fieldMatches := m.fieldMatches query p
  (firstMax FieldMatch.exceeds fieldMatches).map fun primary =>
    { profile := p
      score := min primary.weightedScore 1.0
      algorithm := primary.algorithm
      fieldMatches }

/-- The matches of a query that score more than nothing and reach the least
score, in the order of the profiles. -/
def candidates (m : Matcher) (query : String) (profiles : List Profile) :
    List Match :=
  (profiles.filterMap (m.scoreProfile query)).filter fun r =>
    r.score > 0.0 && r.score ≥ m.settings.minScore

/-- The matches of a query, best first, equally good ones by name. A blank
query matches nothing. -/
def findMatches (m : Matcher) (query : String) (profiles : List Profile) :
    List Match :=
  if Text.normalize query = [] then []
  else
    let ranked := (m.candidates query profiles).mergeSort Match.precedes
    match m.settings.maxResults with
    | some k => ranked.take k.toNat
    | none => ranked

/-- The best match of a query, if it is good enough to be offered alone. -/
def findBest? (m : Matcher) (query : String) (profiles : List Profile) :
    Option Match :=
  match m.findMatches query profiles with
  | best :: _ => if best.isHighConfidence then some best else none
  | [] => none

end Matcher

-- =================================================================== by name

/-- The algorithms of some names, in order. -/
def algorithmsNamed (names : List String) : Except String (List Algorithm) :=
  names.mapM fun n =>
    match Algorithm.ofName? n with
    | some a => .ok a
    | none => .error n

end GitPersona.Lookup
