/-
The settings file to start from: every setting with its default, and
two profiles as examples.
-/
import GitPersona.Settings.Load
import GitPersona.Yaml.Writer

namespace GitPersona.Settings

-- =============================================================== its contents

/-- A mapping with texts for keys. -/
def mappingOf (entries : List (String × Document)) : Document :=
  .mapping (entries.map fun (k, v) => (.text k, v))

/-- A list of texts. -/
def listOf (items : List String) : Document :=
  .list (items.map .text)

/-- The detection section. -/
def detectionDocument (s : DetectionSettings) : Document :=
  mappingOf
    [("min_confidence", .float s.minConfidence),
      ("check_remote_url", .bool s.checkRemoteUrl),
      ("check_directory", .bool s.checkDirectory),
      ("check_include_if", .bool s.checkIncludeIf),
      ("check_hostname", .bool s.checkHostname),
      ("check_git_config", .bool s.checkGitConfig),
      ("enable_cache", .bool s.enableCache),
      ("cache_ttl_seconds", .float s.cacheTtlSeconds),
      ("cache_max_entries", .int s.cacheMaxEntries)]

/-- The matching section. -/
def lookupDocument (s : LookupSettings) : Document :=
  mappingOf
    [("match_name", .bool s.matchName),
      ("match_user_name", .bool s.matchUserName),
      ("match_email", .bool s.matchEmail),
      ("match_vault_name", .bool s.matchVaultName),
      ("match_ssh_key_title", .bool s.matchSshKeyTitle),
      ("min_score", .float s.minScore),
      ("max_results",
        match s.maxResults with | some k => .int k | none => .null),
      ("algorithms", listOf (s.algorithms.map Algorithm.name))]

/-- The profiles of the template. -/
def exampleProfiles : Document :=
  .list
    [mappingOf
      [("name", .text "work"),
        ("git_user_name", .text "Jane Doe"),
        ("git_user_email", .text "jane.doe@company.example"),
        ("key_type", .text KeyType.ssh.name),
        ("repos", listOf ["git@github.com:company/*"]),
        ("match_patterns", listOf ["*/work/*"])],
      mappingOf
        [("name", .text "personal"),
          ("git_user_name", .text "Jane Doe"),
          ("git_user_email", .text "jane@personal.example"),
          ("key_type", .text KeyType.gpg.name),
          ("include_if_dirs", listOf ["~/personal"])]]

/-- The comment at the head of the template. -/
def templateHead : List String :=
  ["# gitsetup configuration",
    "#",
    "# Profiles are matched against the current repository by remote URL,",
    "# directory, include-if directory, hostname and existing git config.",
    "# Any value can be overridden from the environment, for example:",
    "#   GITSETUP_DETECTION__MIN_CONFIDENCE=0.8",
    ""]

/-- The text of the template. -/
def template : String :=
  String.join (templateHead.map (· ++ "\n"))
    ++ Yaml.write
      (mappingOf
        [("detection", detectionDocument {}),
          ("matching", lookupDocument {}),
          ("profiles", exampleProfiles)])

-- ================================================================= writing it

/-- How writing ends, and the files it leaves. -/
structure Writing where
  /-- The path written to, unless there is a fault. -/
  result : Except Fault Path
  files : FileTree

/-- Writes the template, with the directories above it that are missing. A file
that is there already stays unless it is to be replaced. -/
def writeTemplate (w : Workspace) (output : Path) (replace : Bool) : Writing :=
  let cwd := w.place.cwd
  if w.files.exists? cwd output && !replace then
    ⟨.error (.alreadyExists output), w.files⟩
  else
    let above := w.files.makeDirectories cwd output.parent
    match above.mishap with
    | some m => ⟨.error (.mishap m), above.files⟩
    | none =>
      match above.files.write cwd output template with
      | .error m => ⟨.error (.mishap m), above.files⟩
      | .ok files => ⟨.ok output, files⟩

end GitPersona.Settings
