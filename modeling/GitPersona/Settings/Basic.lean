/-
The settings of detection, of lookup, and of both with the profiles.
Every setting has a default.
-/
import GitPersona.Profile
import GitPersona.Decimal.Shortest

namespace GitPersona

-- ================================================================ detection

/-- Which signals detection reads, the confidence it asks for,
and its cache. -/
structure DetectionSettings where
  /-- Results below this confidence are dropped. -/
  minConfidence : Float := 0.6
  checkRemoteUrl : Bool := true
  checkDirectory : Bool := true
  checkIncludeIf : Bool := true
  checkHostname : Bool := true
  checkGitConfig : Bool := true
  enableCache : Bool := true
  /-- How long a ranking stays in the cache. -/
  cacheTtlSeconds : Float := 300.0
  /-- How many rankings a detector keeps. -/
  cacheMaxEntries : Int := 256

instance : Inhabited DetectionSettings := ⟨{}⟩

/-- What detection settings have to be like. -/
structure DetectionSettings.Valid (s : DetectionSettings) : Prop where
  floor : 0.0 ≤ s.minConfidence
  ceiling : s.minConfidence ≤ 1.0
  lifetime : 0.0 < s.cacheTtlSeconds
  capacity : 1 ≤ s.cacheMaxEntries

instance (s : DetectionSettings) : Decidable s.Valid :=
  decidable_of_iff
    (0.0 ≤ s.minConfidence ∧ s.minConfidence ≤ 1.0 ∧ 0.0 < s.cacheTtlSeconds
      ∧ 1 ≤ s.cacheMaxEntries)
    ⟨fun ⟨hf, hc, hl, hn⟩ => ⟨hf, hc, hl, hn⟩,
      fun ⟨hf, hc, hl, hn⟩ => ⟨hf, hc, hl, hn⟩⟩

/-- A double in compact form. What is not finite has no number to
stand for it. -/
def DetectionSettings.compactFloat (x : Float) : List Char :=
  match Decimal.Binary.ofFloat x with
  | .finite _ _ _ => Decimal.shortestChars x
  | _ => "null".toList

/-- The fields of the detection settings with their values in compact form. -/
def DetectionSettings.compactFields (s : DetectionSettings) :
    List (String × List Char) :=
  [("min_confidence", compactFloat s.minConfidence),
    ("check_remote_url", Profile.compactBool s.checkRemoteUrl),
    ("check_directory", Profile.compactBool s.checkDirectory),
    ("check_include_if", Profile.compactBool s.checkIncludeIf),
    ("check_hostname", Profile.compactBool s.checkHostname),
    ("check_git_config", Profile.compactBool s.checkGitConfig),
    ("enable_cache", Profile.compactBool s.enableCache),
    ("cache_ttl_seconds", compactFloat s.cacheTtlSeconds),
    ("cache_max_entries", Decimal.intChars s.cacheMaxEntries)]

/-- The compact form of the detection settings. It tells any two
valid ones apart. -/
def DetectionSettings.compact (s : DetectionSettings) : List Char :=
  Profile.compactObject s.compactFields

-- =================================================================== lookup

/-- The ways to compare a query with a text. -/
inductive Algorithm
  | exact
  | leading
  | substring
  | levenshtein
  | subsequence
  deriving DecidableEq, Repr

/-- Every algorithm. -/
def Algorithm.all : List Algorithm :=
  [.exact, .leading, .substring, .levenshtein, .subsequence]

/-- The name of an algorithm. -/
def Algorithm.name : Algorithm → String
  | .exact => "exact"
  | .leading => "prefix"
  | .substring => "substring"
  | .levenshtein => "levenshtein"
  | .subsequence => "subsequence"

/-- The algorithm of a name. -/
def Algorithm.ofName? (name : String) : Option Algorithm :=
  Algorithm.all.find? (·.name == name)

/-- Which fields lookup searches, how, and how much of the
outcome it returns. -/
structure LookupSettings where
  matchName : Bool := true
  matchUserName : Bool := true
  matchEmail : Bool := true
  matchVaultName : Bool := true
  matchSshKeyTitle : Bool := true
  /-- Results below this score are dropped. -/
  minScore : Float := 0.0
  /-- How many results are returned, all of them when absent. -/
  maxResults : Option Int := none
  algorithms : List Algorithm := [.exact, .leading, .substring, .levenshtein]

instance : Inhabited LookupSettings := ⟨{}⟩

/-- What lookup settings have to be like. -/
structure LookupSettings.Valid (s : LookupSettings) : Prop where
  floor : 0.0 ≤ s.minScore
  ceiling : s.minScore ≤ 1.0
  count : ∀ n ∈ s.maxResults, 1 ≤ n
  algorithms : s.algorithms ≠ []

-- ============================================================ all together

/-- What a settings file holds. -/
structure Settings where
  detection : DetectionSettings := {}
  matching : LookupSettings := {}
  profiles : List Profile := []

/-- What settings have to be like: valid in both sections, and no profile
without a name. -/
structure Settings.Valid (s : Settings) : Prop where
  detection : s.detection.Valid
  matching : s.matching.Valid
  named : ∀ p ∈ s.profiles, p.name ≠ ""

end GitPersona
