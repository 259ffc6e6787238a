/-
Where a setting's value comes from when both the settings file and the
environment give one. The file is laid over the environment, so the file
wins (`load_scalar`): a variable decides a setting exactly where the
file leaves the setting out, whatever else the section of the file
holds. `load_ignores_variable` shows a variable that is overruled.

A setting that holds a single value is known by its section, its key,
the way it is read and its place in the settings (`scalarSettings`), and
all of them are treated alike.
-/
import GitPersona.Settings.Load
import GitPersona.Proofs.Settings.Decode
import GitPersona.Proofs.Settings.Variables

namespace GitPersona.Settings

open Document (lookupText)

-- ============================================================== settings

/-- A setting that holds a single value: where it stands, how it is read, and
what the settings have for it. -/
structure ScalarSetting where
  part : Section
  key : String
  Value : Type
  read : Document → Checked Value
  get : Settings → Value

/-- The settings of detection, each of which holds a single value. -/
def detectionScalars : List ScalarSetting :=
  [⟨.detection, "min_confidence", Float, readShare,
    (·.detection.minConfidence)⟩,
    ⟨.detection, "check_remote_url", Bool, readBool,
      (·.detection.checkRemoteUrl)⟩,
    ⟨.detection, "check_directory", Bool, readBool,
      (·.detection.checkDirectory)⟩,
    ⟨.detection, "check_include_if", Bool, readBool,
      (·.detection.checkIncludeIf)⟩,
    ⟨.detection, "check_hostname", Bool, readBool,
      (·.detection.checkHostname)⟩,
    ⟨.detection, "check_git_config", Bool, readBool,
      (·.detection.checkGitConfig)⟩,
    ⟨.detection, "enable_cache", Bool, readBool, (·.detection.enableCache)⟩,
    ⟨.detection, "cache_ttl_seconds", Float, readPositive,
      (·.detection.cacheTtlSeconds)⟩,
    ⟨.detection, "cache_max_entries", Int, readCount,
      (·.detection.cacheMaxEntries)⟩]

/-- The settings of lookup that hold a single value: all but the list
of algorithms. -/
def lookupScalars : List ScalarSetting :=
  [⟨.matching, "match_name", Bool, readBool, (·.matching.matchName)⟩,
    ⟨.matching, "match_user_name", Bool, readBool, (·.matching.matchUserName)⟩,
    ⟨.matching, "match_email", Bool, readBool, (·.matching.matchEmail)⟩,
    ⟨.matching, "match_vault_name", Bool, readBool,
      (·.matching.matchVaultName)⟩,
    ⟨.matching, "match_ssh_key_title", Bool, readBool,
      (·.matching.matchSshKeyTitle)⟩,
    ⟨.matching, "min_score", Float, readShare, (·.matching.minScore)⟩,
    ⟨.matching, "max_results", Option Int, readOption readCount,
      (·.matching.maxResults)⟩]

/-- The settings that hold a single value. -/
def scalarSettings : List ScalarSetting :=
  detectionScalars ++ lookupScalars

/-- No entry has the name of a parameter of the framework's
constructor. -/
def NoParameter (framework : Framework)
    (entries : List (String × Document)) : Prop :=
  ∀ e ∈ entries, framework.isParameter e.1 = false

variable {s : ScalarSetting}

/-- A setting that holds a single value has a key that is
spelled in one way. -/
theorem isScalarKey_of_mem (hs : s ∈ scalarSettings) :
    IsScalarKey s.part s.key := by
  have hall : ∀ p ∈ scalarSettings.map fun s => (s.part, s.key),
      p.2 ∈ knownKeys p.1 ∧ cutAtDoubleUnderscore p.2.toList = [p.2.toList]
        ∧ holdsList p.1 [p.2] = false ∧ p.2.toList.all (·.toNat < 0x80) = true
        ∧ lowerText p.2 = p.2 := by
    decide +kernel
  obtain ⟨hknown, hwhole, hsingle, hascii, hlower⟩ :=
    hall _ (List.mem_map.2 ⟨s, hs, rfl⟩)
  exact ⟨hknown, hwhole, hsingle,
    fun c hc => of_decide_eq_true (List.all_eq_true.1 hascii c hc),
    hlower⟩

-- =============================================================== reading

variable {parts : Parts} {fields : Fields}

/-- A section that holds a mapping is read from its fields. -/
theorem readSection_of_mapping {α : Type} [Inhabited α] (default : α)
    (read : Fields → Checked α)
    {part : Section} (hparts : parts.find? part = some (.mapping fields)) :
    readSection parts part default (readMapping part read)
      = (read fields).under (.field part.key) := by
  unfold readSection
  rw [hparts]
  rfl

/-- The section on detection is read from its fields, with its issues. -/
theorem readSettings_detection
    (hparts : parts.find? .detection = some (.mapping fields)) :
    (readSettings parts).value.detection = (readDetection fields).value
      ∧ ((readSettings parts).issues = [] →
        (readDetection fields).issues = []) := by
  have hsection := readSection_of_mapping {} readDetection hparts
  have hvalue := congrArg Checked.value hsection
  refine ⟨hvalue, fun hissues => ?_⟩
  simp only [readSettings, issues_bind, List.append_eq_nil_iff] at hissues
  exact List.map_eq_nil_iff.1 (hsection ▸ hissues.1)

/-- The section on lookup is read from its fields, with its issues. -/
theorem readSettings_matching
    (hparts : parts.find? .matching = some (.mapping fields)) :
    (readSettings parts).value.matching = (readLookup fields).value
      ∧ ((readSettings parts).issues = [] →
        (readLookup fields).issues = []) := by
  have hsection := readSection_of_mapping {} readLookup hparts
  have hvalue := congrArg Checked.value hsection
  refine ⟨hvalue, fun hissues => ?_⟩
  simp only [readSettings, issues_bind, List.append_eq_nil_iff] at hissues
  exact List.map_eq_nil_iff.1 (hsection ▸ hissues.2.1)

/-- The value that a setting has, and the issues met on the way to it, are
those of its field. -/
theorem readSettings_scalar (hs : s ∈ scalarSettings)
    (hparts : parts.find? s.part = some (.mapping fields)) :
    s.get (readSettings parts).value
      = (field fields s.key (s.get {}) s.read).value
      ∧ ((readSettings parts).issues = [] →
          (field fields s.key (s.get {}) s.read).issues = []) := by
  rcases List.mem_append.1 hs with hs | hs
  · simp only [detectionScalars, List.mem_cons, List.not_mem_nil, or_false]
      at hs
    rcases hs with rfl | rfl | rfl | rfl | rfl | rfl | rfl | rfl | rfl
    all_goals
      obtain ⟨hvalue, hissues⟩ := readSettings_detection hparts
      refine ⟨?_, fun h => ?_⟩
      · simp only [hvalue]
        rfl
      · have hfields := hissues h
        simp only [readDetection, issues_bind, issues_pure,
          List.append_eq_nil_iff] at hfields
        simp only [hfields]
  · simp only [lookupScalars, List.mem_cons, List.not_mem_nil, or_false] at hs
    rcases hs with rfl | rfl | rfl | rfl | rfl | rfl | rfl
    all_goals
      obtain ⟨hvalue, hissues⟩ := readSettings_matching hparts
      refine ⟨?_, fun h => ?_⟩
      · simp only [hvalue]
        rfl
      · have hfields := hissues h
        simp only [readLookup, issues_bind, issues_pure,
          List.append_eq_nil_iff] at hfields
        simp only [hfields]

/-- A setting whose field is there has the value that is read from it. -/
theorem scalar_of_lookup (hs : s ∈ scalarSettings)
    (hparts : parts.find? s.part = some (.mapping fields)) {d : Document}
    (hfield : lookupText s.key fields = some d)
    (hissues : (readSettings parts).issues = []) :
    (s.read d).issues = [] ∧ s.get (readSettings parts).value
      = (s.read d).value := by
  obtain ⟨hvalue, hfieldIssues⟩ := readSettings_scalar hs hparts
  have hread : field fields s.key (s.get {}) s.read
      = (s.read d).under (.field s.key) := by
    unfold field
    rw [hfield]
  rw [hread] at hvalue hfieldIssues
  exact ⟨List.map_eq_nil_iff.1 (hfieldIssues hissues), hvalue⟩

/-- A section that is there without an issue is a mapping. -/
theorem mapping_of_issues_eq_nil (hissues : (readSettings parts).issues = [])
    {part : Section}
    (hpart : part ≠ .profiles) {d : Document}
    (hparts : parts.find? part = some d) :
    ∃ fields, d = .mapping fields := by
  simp only [readSettings, issues_bind, List.append_eq_nil_iff] at hissues
  obtain ⟨hdetection, hmatching, -⟩ := hissues
  cases part with
  | detection =>
      rw [readSection, hparts] at hdetection
      cases d with
      | mapping fields => exact ⟨fields, rfl⟩
      | _ => cases hdetection
  | matching =>
      rw [readSection, hparts] at hmatching
      cases d with
      | mapping fields => exact ⟨fields, rfl⟩
      | _ => cases hmatching
  | profiles => exact absurd rfl hpart

-- ================================================================ layers

section

variable {first s : Section} {rest : List (Section × Document)}

/-- What was gathered for a section is found under it. -/
theorem lookup_gathered_self (o : Option Document)
    (hrest : rest.lookup first = none) :
    ((o.map fun d => (first, d)).toList ++ rest).lookup first = o := by
  cases o with
  | none => exact hrest
  | some d => exact List.lookup_cons_self

/-- What was gathered for a section leaves the others alone. -/
theorem lookup_gathered_of_ne (o : Option Document) (hne : s ≠ first) :
    ((o.map fun d => (first, d)).toList ++ rest).lookup s = rest.lookup s := by
  cases o with
  | none => rfl
  | some d =>
      show ((first, d) :: rest).lookup s = rest.lookup s
      rw [List.lookup_cons, beq_false_of_ne hne]

end

/-- Of sections that are gathered one by one, each is found as what was
gathered for it. -/
theorem lookup_of_filterMapM {f : Section → Except Mishap (Option Document)}
    {ss : List Section}
    {out : List (Section × Document)} (hnodup : ss.Nodup)
    (h : ss.filterMapM (fun s => (f s).map (Option.map fun d => (s, d)))
        = .ok out) :
    (∀ s ∈ ss, ∃ o, f s = .ok o ∧ out.lookup s = o)
      ∧ ∀ s ∉ ss, out.lookup s = none := by
  induction ss generalizing out with
  | nil =>
      cases h
      exact ⟨fun s hs => absurd hs List.not_mem_nil, fun s _ => rfl⟩
  | cons first ss ih =>
      obtain ⟨hfirst, hss⟩ := List.nodup_cons.1 hnodup
      obtain ⟨step, rest, hstep, hrest, rfl⟩ := exists_of_filterMapM_cons h
      obtain ⟨o, hf, rfl⟩ := exists_of_map_eq_ok hstep
      obtain ⟨hin, hout⟩ := ih hss hrest
      refine ⟨fun s hs => ?_, fun s hs => ?_⟩
      · rcases List.mem_cons.1 hs with rfl | hmem
        · exact ⟨o, hf, lookup_gathered_self o (hout s hfirst)⟩
        · rw [lookup_gathered_of_ne o (ne_of_mem_of_not_mem hmem hfirst)]
          exact hin s hmem
      · obtain ⟨hne, hlater⟩ := not_or.1 (List.mem_cons.not.1 hs)
        rw [lookup_gathered_of_ne o hne]
        exact hout s hlater

/-- What the environment and explicit settings have for a section together. -/
def gathered (env : Bindings) (explicit : Parts) (part : Section) :
    Except Mishap (Option Document) :=
  (fromEnvironment env part).map fun given =>
    layered given (explicit.find? part)

/-- The environment and explicit settings together are gathered
section by section. -/
theorem withEnvironment_eq (env : Environment) (explicit : Parts) :
    withEnvironment env explicit = (Section.all.filterMapM fun s =>
        (gathered (lowered env) explicit s).map (Option.map fun d => (s, d)))
          >>= fun sections =>
      .ok { explicit with sections } := by
  have hbody : (fun s => do
      let below ← fromEnvironment (lowered env) s
      return (layered below (explicit.find? s)).map fun d => (s, d))
      = fun s => (gathered (lowered env) explicit s).map
        (Option.map fun d => (s, d)) := by
    funext s
    unfold gathered
    cases fromEnvironment (lowered env) s <;> rfl
  unfold withEnvironment
  dsimp only
  rw [hbody]
  rfl

/-- Each section has what the file gives laid over what the
environment does. -/
theorem withEnvironment_spec {env : Environment} {explicit : Parts}
    (h : withEnvironment env explicit = .ok parts) (part : Section) :
    ∃ given, fromEnvironment (lowered env) part = .ok given
      ∧ parts.find? part = layered given (explicit.find? part) := by
  rw [withEnvironment_eq] at h
  obtain ⟨sections, hsections, hrest⟩ := exists_of_bind_eq_ok h
  cases hrest
  have hall : part ∈ Section.all := by cases part <;> decide
  obtain ⟨o, ho, hlookup⟩ :=
    (lookup_of_filterMapM (by decide) hsections).1 part hall
  obtain ⟨given, hgiven, rfl⟩ := exists_of_map_eq_ok ho
  exact ⟨given, hgiven, hlookup⟩

-- ================================================================== files

/-- The entries of a settings file. -/
def fileEntries (w : Workspace) (file : Path) :
    Except Fault (List (String × Document)) :=
  match Format.ofSuffix? file.suffix with
  | none => .error (.formatUnsupported file.suffix)
  | some format => readDocument w format file >>= topEntries file

/-- What the entries of a file give to a setting, if they do. -/
def inFile? (entries : List (String × Document)) (s : ScalarSetting) :
    Option Document :=
  match (Parts.of entries).find? s.part with
  | some (.mapping fields) => lookupText s.key (Document.ofPairs fields)
  | _ => none

/-- Settings that are put together were read without an issue. -/
theorem combine_spec {env : Environment}
    {entries : List (String × Document)} {settings : Settings}
    (h : combine env entries = .ok settings) :
    ∃ parts, withEnvironment env (Parts.of entries) = .ok parts
      ∧ (readSettings parts).issues = []
      ∧ (readSettings parts).value = settings := by
  unfold combine at h
  obtain ⟨parts, hparts, hread⟩ := exists_of_bind_eq_ok h
  refine ⟨parts, hparts, ?_⟩
  unfold Checked.result at hread
  split at hread
  · next hresult =>
    split at hresult
    · next hissues =>
      cases hresult
      cases hread
      exact ⟨hissues, rfl⟩
    · cases hresult
  · cases hread

section

variable {framework : Framework} {entries : List (String × Document)}

/-- The framework looks for its own parameters by their names. -/
theorem any_isParameter_iff :
    (entries.any fun e => framework.isParameter e.1) = true
      ↔ ¬NoParameter framework entries := by
  simp [NoParameter]

/-- Entries without a parameter are put together with the environment. -/
theorem build_of_noParameter (h : NoParameter framework entries)
    (env : Environment) : build framework env entries
      = combine env entries :=
  if_neg fun hany => any_isParameter_iff.1 hany h

end

/-- Settings that load are built from the entries of the chosen file. -/
theorem load_spec {w : Workspace} {directory : Path} {path : Option Path}
    {settings : Settings} (h : load w directory path = .ok settings) :
    ∃ file entries, chooseFile w directory path = .ok file
      ∧ fileEntries w file = .ok entries
      ∧ build w.framework w.environment entries = .ok settings := by
  unfold load at h
  obtain ⟨file, hfile, hfileLoad⟩ := exists_of_bind_eq_ok h
  unfold loadFile at hfileLoad
  split at hfileLoad
  · cases hfileLoad
  · next format hformat =>
    obtain ⟨d, hdocument, hrest⟩ := exists_of_bind_eq_ok hfileLoad
    obtain ⟨entries, hentries, hbuild⟩ := exists_of_bind_eq_ok hrest
    refine ⟨file, entries, hfile, ?_, ?_⟩
    · rw [fileEntries, hformat]
      simp only [hdocument]
      exact hentries
    · split at hbuild
      · next settings' hsettings =>
        cases hbuild
        exact hsettings
      · cases hbuild
      · cases hbuild

-- =============================================================== main result

/-- Settings that load have for each setting what the file gives to it, and
what its variable holds only where the file gives nothing, unless the file
has an entry that the framework takes for a parameter of its own. -/
theorem load_scalar {w : Workspace} {directory : Path}
    {path : Option Path} {settings : Settings}
    (hload : load w directory path = .ok settings)
    (hs : s ∈ scalarSettings) {value : String}
    (hvariable : (lowered w.environment).get? (variableFor s.part s.key)
      = some value)
    (hsection : PlainSection (lowered w.environment) s.part s.key) :
    ∃ file entries, chooseFile w directory path = .ok file
      ∧ fileEntries w file = .ok entries
      ∧ (NoParameter w.framework entries →
        (s.read ((inFile? entries s).getD (.text value))).issues = []
          ∧ s.get settings
            = (s.read ((inFile? entries s).getD (.text value))).value) := by
  obtain ⟨file, entries, hfile, hentries, hbuild⟩ := load_spec hload
  refine ⟨file, entries, hfile, hentries, fun hparameter => ?_⟩
  rw [build_of_noParameter hparameter] at hbuild
  obtain ⟨parts, hparts, hissues, rfl⟩ := combine_spec hbuild
  obtain ⟨given, hgiven, hfind⟩ := withEnvironment_spec hparts s.part
  obtain ⟨below, rfl, hlook⟩ :=
    lookup_fromEnvironment (fun _ => settled_of_mem_lowered)
      (isScalarKey_of_mem hs) hvariable hsection hgiven
  cases hexplicit : (Parts.of entries).find? s.part with
  | none =>
      rw [hexplicit] at hfind
      have hnone : inFile? entries s = none := by rw [inFile?, hexplicit]
      rw [hnone]
      exact scalar_of_lookup hs hfind hlook hissues
  | some d =>
      rw [hexplicit] at hfind
      have hpart : s.part ≠ .profiles := by
        intro hprofiles
        have hknown := (isScalarKey_of_mem hs).known
        rw [hprofiles] at hknown
        cases hknown
      cases d with
      | mapping above =>
          have hfields : inFile? entries s
              = lookupText s.key (Document.ofPairs above) := by
            rw [inFile?, hexplicit]
          refine scalar_of_lookup hs hfind ?_ hissues
          rw [Document.lookupText_overlay, hlook, hfields]
          cases lookupText s.key (Document.ofPairs above) <;> rfl
      | _ =>
          obtain ⟨fields, hmapping⟩ :=
            mapping_of_issues_eq_nil hissues hpart hfind
          cases hmapping

/-- A settings file in the root directory, and a variable for the
confidence asked for. -/
def workspaceOf (text : String) : Workspace where
  place := { homes := { own := some "/home/user" }, cwd := .root }
  files := { entries := [(["gitsetup.toml"], .file text)] }
  environment := [("GITSETUP_DETECTION__MIN_CONFIDENCE", "0.8")]

private theorem exists_ok_of_map {ε α β : Type} {x : Except ε α} {f : α → β}
    {b : β}
    (h : x.toOption.map f = some b) : ∃ a, x = .ok a ∧ f a = b := by
  cases x with
  | error e => cases h
  | ok a => exact ⟨a, rfl, Option.some.inj h⟩

/-- A file that gives the section but not the confidence leaves that to
the variable. -/
theorem load_scalar_leftOut :
    ∃ settings, load (workspaceOf "[detection]\ncheck_hostname = false\n")
      .root none
        = .ok settings
      ∧ settings.detection.checkHostname = false
      ∧ settings.detection.minConfidence = 0.8 := by
  generalize hw : workspaceOf "[detection]\ncheck_hostname = false\n" = w
  have hhost : ((load w .root none).toOption.map (·.detection.checkHostname))
      = some false := by
    rw [← hw]
    decide +kernel
  have hvariable : (lowered w.environment).get?
      (variableFor .detection "min_confidence")
      = some "0.8" := by
    rw [← hw]
    decide +kernel
  have hsection : (lowered w.environment).get? (variableOf .detection)
      = none := by
    rw [← hw]
    decide +kernel
  have habsent :
      ((chooseFile w .root none >>= fileEntries w).toOption.map fun entries =>
      (inFile? entries ⟨.detection, "min_confidence", Float, readShare,
        (·.detection.minConfidence)⟩).isNone) = some true := by
    rw [← hw]
    decide +kernel
  obtain ⟨settings, hload, hcheck⟩ := exists_ok_of_map hhost
  obtain ⟨file, entries, hfile, hentries, hscalar⟩ :=
    load_scalar hload (List.mem_append_left _ List.mem_cons_self) hvariable
      fun text htext => by rw [hsection] at htext; cases htext
  have hparameter : NoParameter w.framework entries := by
    rw [← hw]
    exact fun _ _ => rfl
  obtain ⟨-, hget⟩ := hscalar hparameter
  rw [hfile] at habsent
  replace habsent : (fileEntries w file).toOption.map _ = some true := habsent
  rw [hentries] at habsent
  have hnone := Option.isNone_iff_eq_none.1 (Option.some.inj habsent)
  rw [hnone] at hget
  have hvalue : (readShare (.text "0.8")).value = 0.8 := by decide +kernel
  exact ⟨settings, hload, hcheck, hget.trans hvalue⟩

/-- A variable is overruled by a file that gives the setting. -/
theorem load_ignores_variable :
    (lowered
      (workspaceOf "[detection]\nmin_confidence = 0.3\n").environment).get?
        (variableFor .detection "min_confidence") = some "0.8"
      ∧ (readShare (.text "0.8")).issues = []
      ∧ ∃ settings, load (workspaceOf "[detection]\nmin_confidence = 0.3\n")
        .root none
          = .ok settings
        ∧ settings.detection.minConfidence
          ≠ (readShare (.text "0.8")).value := by
  have hload : ((load (workspaceOf "[detection]\nmin_confidence = 0.3\n") .root
      none).toOption.map
      (·.detection.minConfidence)) = some 0.3 := by
    decide +kernel
  have hvalue : (0.3 : Float) ≠ (readShare (.text "0.8")).value := by
    decide +kernel
  obtain ⟨settings, hok, hconfidence⟩ := exists_ok_of_map hload
  refine ⟨by decide +kernel, by decide +kernel, settings, hok, ?_⟩
  rw [hconfidence]
  exact hvalue

end GitPersona.Settings
