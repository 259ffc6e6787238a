/-
Settings from the environment. `GITSETUP_<SECTION>` holds a section as
JSON; `GITSETUP_<SECTION>__<KEY>` sets one key of it and wins over the
former. Names are compared without regard to letter case. Settings that
are given explicitly are laid over those of the environment.
-/
import GitPersona.Settings.Decode
import GitPersona.Json.Reader
import GitPersona.Bindings
import GitPersona.Fault

namespace GitPersona.Settings

-- ================================================================== variables

/-- The variables of an environment, in order. -/
abbrev Environment := List (String × String)

/-- A text in lower case. -/
def lowerText (s : String) : String :=
  String.ofList (Text.lowerAll s.toList)

/-- The variables by their names in lower case; of several for a name the
last one counts. -/
def lowered (env : Environment) : Bindings :=
  .ofList (env.map fun (name, value) => (lowerText name, value))

/-- The name of the variable that holds a section. -/
def variableOf (part : Section) : String :=
  "gitsetup_" ++ part.key

/-- The pieces between the double underscores of a text. -/
def cutAtDoubleUnderscore : List Char → List (List Char)
  | '_' :: '_' :: r => [] :: cutAtDoubleUnderscore r
  | c :: r =>
    match cutAtDoubleUnderscore r with
    | piece :: pieces => (c :: piece) :: pieces
    | [] => [[c]]
  | [] => [[]]

/-- The keys that the name of a variable leads through below a section. -/
def keysBelow? (part : Section) (name : String) : Option (List String) :=
  let lead := (variableOf part ++ "__").toList
  if lead.isPrefixOf name.toList then
    some ((cutAtDoubleUnderscore (name.toList.drop lead.length)).map
      String.ofList)
  else none

-- ===================================================================== values

/-- A key of a section that holds a list, which a variable spells as JSON. -/
def holdsList (part : Section) (keys : List String) : Bool :=
  part == .matching && keys == ["algorithms"]

/-- The value that a variable gives to the key it leads to. -/
def valueAt? (part : Section) (keys : List String) (value : String) :
    Option Document :=
  if holdsList part keys && value != "" then Json.read? value
    else some (.text value)

/-- Puts a value into nested mappings, at the end of a list of keys. A value
that is no mapping is not entered. -/
def putAt (value : Document) : List String → Fields → Fields
  | [], fields => fields
  | [key], fields => Document.put (.text key) value fields
  | key :: keys, fields =>
    match Document.lookupText key fields with
    | none => Document.put (.text key) (.mapping (putAt value keys [])) fields
    | some (.mapping inner) =>
      Document.put (.text key) (.mapping (putAt value keys inner)) fields
    | some _ => fields

/-- What the variables below a section give to its keys. -/
def keyVariables (env : Bindings) (part : Section) : Except Mishap Fields :=
  env.entries.foldlM (fun fields (name, value) =>
    match keysBelow? part name with
    | none => .ok fields
    | some keys =>
      match valueAt? part keys value with
      | some d => .ok (putAt d keys fields)
      | none => .error (.environmentUnreadable part)) []

/-- The keys that a section knows. -/
def knownKeys : Section → List String
  | .detection =>
    ["min_confidence", "check_remote_url", "check_directory",
      "check_include_if", "check_hostname", "check_git_config",
      "enable_cache", "cache_ttl_seconds", "cache_max_entries"]
  | .matching =>
    ["match_name", "match_user_name", "match_email", "match_vault_name",
      "match_ssh_key_title", "min_score", "max_results", "algorithms"]
  | .profiles => []

/-- A key as the section spells it, when they differ in letter case alone. -/
def knownSpelling (part : Section) : Document → Document
  | .text key =>
    .text (((knownKeys part).find? fun k => k == lowerText key).getD key)
  | d => d

/-- The fields with their keys as the section spells them. -/
def respelled (part : Section) (fields : Fields) : Fields :=
  Document.ofPairs (fields.map fun (k, v) => (knownSpelling part k, v))

/-- What the environment has for a section. A variable that holds a null gives
nothing, and hides the variables of single keys. -/
def fromEnvironment (env : Bindings) (part : Section) :
    Except Mishap (Option Document) :=
  match env.get? (variableOf part) with
  | none => do
    let fields ← keyVariables env part
    return if fields.isEmpty then none
      else some (.mapping (respelled part fields))
  | some value =>
    match Json.read? value with
    | none => .error (.environmentUnreadable part)
    | some .null => .ok none
    | some (.mapping below) => do
      let above ← keyVariables env part
      return some (.mapping (respelled part (Document.overlay below above)))
    | some d => .ok (some d)

-- =================================================================== layering

/-- An explicit value laid over one of the environment: key by key between
mappings, otherwise the explicit one wins. -/
def layered : Option Document → Option Document → Option Document
  | some (.mapping below), some (.mapping above) =>
      some (.mapping (Document.overlay below above))
  | _, some d => some d
  | below, none => below

/-- The parts of explicit settings laid over the environment. -/
def withEnvironment (env : Environment) (explicit : Parts) :
    Except Mishap Parts := do
  let vars := lowered env
  let sections ← Section.all.filterMapM fun s => do
    let below ← fromEnvironment vars s
    return (layered below (explicit.find? s)).map fun d => (s, d)
  return { explicit with sections }

/-- The settings that explicit entries and the environment give together. -/
def combine (env : Environment) (entries : List (String × Document)) :
    Except Mishap Settings := do
  let parts ← withEnvironment env (Parts.of entries)
  match (readSettings parts).result with
  | .ok settings => return settings
  | .error issues => throw (.refused issues)

-- ================================================================= framework

/-- The framework that settings are built with. Its constructor has
parameters of its own, which set how the settings are read, and an entry
under the name of one is taken for it. What comes of entries with such a
one among them is up to the framework, but settings that it gives have
been validated. -/
structure Framework where
  isParameter : String → Bool
  construct : List (String × Document) → Except Mishap Settings
  valid : ∀ entries settings, construct entries = .ok settings →
    settings.Valid

/-- A framework whose constructor has no parameters of its own. -/
def Framework.plain : Framework where
  isParameter _ := false
  construct _ := .error (.entryRefused "")
  valid _ _ h := nomatch h

/-- The settings that a framework builds from explicit entries in an
environment. -/
def build (framework : Framework) (env : Environment)
    (entries : List (String × Document)) : Except Mishap Settings :=
  if entries.any fun e => framework.isParameter e.1 then
    framework.construct entries
  else combine env entries

end GitPersona.Settings
