/-
The signals that detection goes by. Each is a pure function of a
context and a profile, which says how sure it makes us and why, or that
it has nothing to say. One of them reads entries that name directories,
and gives up at an entry that the system does not take for a path.
-/
import GitPersona.Context
import GitPersona.Profile
import GitPersona.Glob.Match
import GitPersona.Settings.Basic

namespace GitPersona.Detection

open Glob (Casing isLiteral)

-- ================================================================== findings

/-- What a signal that fires has to say. -/
structure Finding where
  confidence : Float
  evidence : String

/-- The first finding of the greatest confidence, among those of
positive confidence. -/
def strongest (fs : List Finding) : Option Finding :=
  fs.foldl (fun best f =>
    if f.confidence > 0.0 then
      match best with
      | none => some f
      | some b => if f.confidence > b.confidence then some f else some b
    else best) none

-- =============================================================== remote URLs

/-- A URL without trailing slashes, then without a trailing `.git`. -/
def bareUrl (url : List Char) : List Char :=
  let cs := Text.dropEndWhile (· == '/') url
  if ".git".toList.isSuffixOf cs then cs.take (cs.length - 4) else cs

/-- How well a URL fits a pattern: fully when it is the pattern's text or
differs from it only in the last segment, less when a glob leaves more open,
not at all otherwise. -/
def scoreUrl (pattern url : String) : Float :=
  let p := pattern.toList
  let u := url.toList
  if isLiteral p then
    if p == u || bareUrl p == bareUrl u then 1.0 else 0.0
  else if Glob.accepts .sensitive p u then
    if Glob.wildcardsInLastSegment p then 1.0 else 0.8
  else 0.0

/-- A URL of the repository fits a pattern of the profile; the best pair
counts, the first of several. -/
def remoteUrl (c : Context) (p : Profile) : Option Finding :=
  strongest (c.remoteUrls.flatMap fun (name, url) => p.repos.map fun pattern =>
    { confidence := scoreUrl pattern url
      evidence := "remote '" ++ name ++ "' (" ++ url ++ ") matches '"
        ++ pattern ++ "'" })

-- =============================================================== directories

/-- The pattern takes the whole path of a directory, or its own name. -/
def patternTakes (pattern : String) (directory : Path) : Bool :=
  Glob.accepts .sensitive pattern.toList directory.chars
    || Glob.accepts .sensitive pattern.toList directory.name.toList

/-- The confidence of a match so many directories above the
working directory. -/
def heightConfidence : Nat → Float
  | 0 => 0.8
  | n + 1 => max (0.7 - 0.1 * Float.ofNat n) 0.4

/-- The first pattern that takes the nearest matching directory, with the
height of that directory above the working directory. -/
def nearestMatch? (patterns : List String) :
    Nat → List Path → Option (Nat × Path × String)
  | _, [] => none
  | height, d :: ds =>
    match patterns.find? (patternTakes · d) with
    | some pattern => some (height, d, pattern)
    | none => nearestMatch? patterns (height + 1) ds

/-- A pattern of the profile takes the working directory or, less surely the
further up, one above it. -/
def directoryPath (c : Context) (p : Profile) : Option Finding :=
  (nearestMatch? p.matchPatterns 0 (c.workingDir :: c.ancestors)).map
    fun (height, directory, pattern) =>
      { confidence := heightConfidence height
        evidence := (if height = 0 then "directory " else "parent directory ")
          ++ directory.text
          ++ " matches '" ++ pattern ++ "'" }

/-- The working directory lies in a directory whose subtree belongs to the
profile. The first such entry counts; those after it are not looked at. -/
def includeIfDir (homes : Homes) (c : Context) (p : Profile) :
    Except Path.Defect (Option Finding) :=
  (p.includeIfDirs.findM? (c.workingDir.isWithin homes)).map
    (·.map fun directory =>
      { confidence := 1.0
        evidence := c.workingDir.text ++ " is inside '" ++ directory ++ "'" })

-- ================================================================ host names

/-- The host name is a literal pattern of the profile, wherever that stands, or
fits one of its globs. -/
def hostname (c : Context) (p : Profile) : Option Finding :=
  let host := c.hostname.toList
  let fitting (literal : Bool) := p.hostPatterns.find? fun pattern =>
    isLiteral pattern.toList == literal
      && Glob.accepts .insensitive pattern.toList host
  match fitting true, fitting false with
  | some pattern, _ =>
    some
      { confidence := 0.9
        evidence := "hostname '" ++ c.hostname ++ "' is '" ++ pattern ++ "'" }
  | none, some pattern =>
    some
      { confidence := 0.7
        evidence := "hostname '" ++ c.hostname ++ "' matches '" ++ pattern
          ++ "'" }
  | none, none => none

-- ========================================================= git configuration

/-- The local configuration already uses the profile's identity, or
one half of it. -/
def gitConfig (c : Context) (p : Profile) : Option Finding :=
  let emailMatches := c.currentEmail == some p.email
  let nameMatches := c.currentName.isSome && c.currentName == p.userName
  if emailMatches && (nameMatches || p.userName.isNone) then
    some
      { confidence := 1.0
        evidence := "local git config already uses this identity" }
  else if emailMatches then
    some { confidence := 0.5, evidence := "local user.email matches" }
  else if nameMatches then
    some { confidence := 0.5, evidence := "local user.name matches" }
  else none

-- ================================================================ the signals

/-- How much a signal counts for in an explanation. -/
inductive Tier
  | low
  | medium
  | high
  | critical
  deriving DecidableEq, Repr

/-- The rank of a tier, from one. -/
def Tier.level : Tier → Nat
  | .low => 1
  | .medium => 2
  | .high => 3
  | .critical => 4

/-- The tier of a rank. -/
def Tier.ofLevel? : Int → Option Tier
  | 1 => some .low
  | 2 => some .medium
  | 3 => some .high
  | 4 => some .critical
  | _ => none

/-- The name of a tier. -/
def Tier.name : Tier → String
  | .low => "LOW"
  | .medium => "MEDIUM"
  | .high => "HIGH"
  | .critical => "CRITICAL"

/-- The closed set of signals. -/
inductive Signal
  | remoteUrl
  | includeIfDir
  | directoryPath
  | hostname
  | gitConfig
  deriving DecidableEq, Repr

namespace Signal

/-- Every signal, in evaluation order: by tier, highest first. -/
def all : List Signal :=
  [.remoteUrl, .includeIfDir, .directoryPath, .hostname, .gitConfig]

/-- The name of a signal. -/
def name : Signal → String
  | .remoteUrl => "remote_url"
  | .includeIfDir => "include_if_dir"
  | .directoryPath => "directory_path"
  | .hostname => "hostname"
  | .gitConfig => "git_config"

/-- The tier of a signal. -/
def tier : Signal → Tier
  | .remoteUrl => .critical
  | .includeIfDir => .high
  | .directoryPath => .medium
  | .hostname => .medium
  | .gitConfig => .low

/-- The setting that switches a signal on. -/
def flag : Signal → String
  | .remoteUrl => "check_remote_url"
  | .includeIfDir => "check_include_if"
  | .directoryPath => "check_directory"
  | .hostname => "check_hostname"
  | .gitConfig => "check_git_config"

/-- What a signal amounts to, in a few words. -/
def summary : Signal → String
  | .remoteUrl => "repository URL matches"
  | .includeIfDir => "in configured directory"
  | .directoryPath => "directory pattern matches"
  | .hostname => "hostname matches"
  | .gitConfig => "git config matches"

/-- The signal of a name. -/
def ofName? (name : String) : Option Signal :=
  all.find? (·.name == name)

/-- The settings switch the signal on. -/
def isOn (settings : DetectionSettings) : Signal → Bool
  | .remoteUrl => settings.checkRemoteUrl
  | .includeIfDir => settings.checkIncludeIf
  | .directoryPath => settings.checkDirectory
  | .hostname => settings.checkHostname
  | .gitConfig => settings.checkGitConfig

/-- The signals that the settings switch on, in evaluation order. -/
def enabled (settings : DetectionSettings) : List Signal :=
  all.filter (·.isOn settings)

/-- What the signal has to say about a profile in a context. -/
def evaluate (homes : Homes) (c : Context) (p : Profile) :
    Signal → Except Path.Defect (Option Finding)
  | .remoteUrl => .ok (Detection.remoteUrl c p)
  | .includeIfDir => Detection.includeIfDir homes c p
  | .directoryPath => .ok (Detection.directoryPath c p)
  | .hostname => .ok (Detection.hostname c p)
  | .gitConfig => .ok (Detection.gitConfig c p)

end Signal

end GitPersona.Detection
