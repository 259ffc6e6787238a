/-
Settings read from documents. Keys that a section does not know are
passed over; at the top they are issues. Every issue is found, in the
order of the fields, the unknown keys last.
-/
import GitPersona.Settings.Basic
import GitPersona.Settings.Scalar
import GitPersona.Text.Case

namespace GitPersona.Settings

-- ===================================================================== fields

/-- The pairs of a mapping. -/
abbrev Fields := List (Document × Document)

/-- A field that has a default. -/
def field {α : Type} (fields : Fields) (name : String) (default : α)
    (read : Document → Checked α) : Checked α :=
  match Document.lookupText name fields with
  | some d => (read d).under (.field name)
  | none => .ok default

/-- A field that must be there. -/
def required {α : Type} [Inhabited α] (fields : Fields) (name : String)
    (read : Document → Checked α) : Checked α :=
  match Document.lookupText name fields with
  | some d => (read d).under (.field name)
  | none => (Checked.wrong .missing).under (.field name)

/-- The content of a section, which has to be a mapping. -/
def readMapping {α : Type} [Inhabited α] (part : Section)
    (read : Fields → Checked α) :
    Document → Checked α
  | .mapping fields => read fields
  | _ => .wrong (.mappingExpected part.content)

-- =================================================================== sections

instance : Inhabited KeyType := ⟨.ssh⟩

instance : Inhabited Scope := ⟨.repository⟩

instance : Inhabited Algorithm := ⟨.exact⟩

instance : Inhabited Profile := ⟨{ name := "", email := "" }⟩

/-- A profile. -/
def readProfile (fs : Fields) : Checked Profile := do
  let name ← required fs "name" readNonemptyText
  let userName ← field fs "git_user_name" none (readOption readText)
  let email ← required fs "git_user_email" readText
  let keyType ← field fs "key_type" .ssh
      (readNamed KeyType.all KeyType.name .notOneOf)
  let signingKey ← field fs "signing_key" none (readOption readText)
  let vaultName ← field fs "vault_name" none (readOption readText)
  let sshKeyTitle ← field fs "ssh_key_title" none (readOption readText)
  let scope ← field fs "scope" .repository
      (readNamed Scope.all Scope.name .notOneOf)
  let repos ← field fs "repos" [] (readList readText)
  let matchPatterns ← field fs "match_patterns" [] (readList readText)
  let includeIfDirs ← field fs "include_if_dirs" [] (readList readText)
  let hostPatterns ← field fs "host_patterns" [] (readList readText)
  let onePassword ← field fs "one_password" false readBool
  return {
    name, userName, email, keyType, signingKey, vaultName, sshKeyTitle, scope,
    repos, matchPatterns, includeIfDirs, hostPatterns, onePassword }

/-- The detection section. -/
def readDetection (fs : Fields) : Checked DetectionSettings := do
  let d : DetectionSettings := {}
  let minConfidence ← field fs "min_confidence" d.minConfidence readShare
  let checkRemoteUrl ← field fs "check_remote_url" d.checkRemoteUrl readBool
  let checkDirectory ← field fs "check_directory" d.checkDirectory readBool
  let checkIncludeIf ← field fs "check_include_if" d.checkIncludeIf readBool
  let checkHostname ← field fs "check_hostname" d.checkHostname readBool
  let checkGitConfig ← field fs "check_git_config" d.checkGitConfig readBool
  let enableCache ← field fs "enable_cache" d.enableCache readBool
  let cacheTtlSeconds ← field fs "cache_ttl_seconds" d.cacheTtlSeconds
      readPositive
  let cacheMaxEntries ← field fs "cache_max_entries" d.cacheMaxEntries
      readCount
  return {
    minConfidence, checkRemoteUrl, checkDirectory, checkIncludeIf,
    checkHostname, checkGitConfig, enableCache, cacheTtlSeconds,
    cacheMaxEntries }

/-- A list of algorithms, at least one. -/
def readAlgorithms (d : Document) : Checked (List Algorithm) :=
  let x := readList (readNamed Algorithm.all Algorithm.name .notNamed) d
  if x.issues = [] && x.value = [] then .wrong .listEmpty else x

/-- The matching section. -/
def readLookup (fs : Fields) : Checked LookupSettings := do
  let d : LookupSettings := {}
  let matchName ← field fs "match_name" d.matchName readBool
  let matchUserName ← field fs "match_user_name" d.matchUserName readBool
  let matchEmail ← field fs "match_email" d.matchEmail readBool
  let matchVaultName ← field fs "match_vault_name" d.matchVaultName readBool
  let matchSshKeyTitle ← field fs "match_ssh_key_title" d.matchSshKeyTitle
      readBool
  let minScore ← field fs "min_score" d.minScore readShare
  let maxResults ← field fs "max_results" d.maxResults (readOption readCount)
  let algorithms ← field fs "algorithms" d.algorithms readAlgorithms
  return {
    matchName, matchUserName, matchEmail, matchVaultName, matchSshKeyTitle,
    minScore, maxResults, algorithms }

-- ============================================================== all together

/-- The sections of a settings document and the keys that name no section. -/
structure Parts where
  sections : List (Section × Document) := []
  unknown : List String := []

/-- The section that a key names, letter case ignored. -/
def sectionOf? (key : String) : Option Section :=
  Section.all.find? fun s => s.key.toList == Text.lowerAll key.toList

/-- Sorts the entries of a settings document by section. Of several entries for
a section the last one counts. -/
def Parts.of (entries : List (String × Document)) : Parts :=
  entries.foldl (fun parts (key, d) =>
    match sectionOf? key with
    | some s => { parts with sections := (s, d) :: parts.sections }
    | none => { parts with unknown := parts.unknown ++ [key] }) {}

/-- What the document has for a section. -/
def Parts.find? (p : Parts) (s : Section) : Option Document :=
  p.sections.lookup s

/-- A section that has a default. -/
def readSection {α : Type} (p : Parts) (s : Section) (default : α)
    (read : Document → Checked α) : Checked α :=
  match p.find? s with
  | some d => (read d).under (.field s.key)
  | none => .ok default

/-- All settings. -/
def readSettings (p : Parts) : Checked Settings := do
  let detection ← readSection p .detection {}
      (readMapping .detection readDetection)
  let matching ← readSection p .matching {} (readMapping .matching readLookup)
  let profiles ← readSection p .profiles []
      (readList (readMapping .profiles readProfile))
  let settings : Settings := { detection, matching, profiles }
  ⟨settings, p.unknown.map fun key => ⟨[.field key], .unknownKey⟩⟩

end GitPersona.Settings
