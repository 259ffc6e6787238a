/-
The value at the top of a YAML file of settings. A mapping is taken
apart; of anything else a load says that a mapping was expected, unless
the value counts as none (`Hollow`): false, zero, and whatever is empty.
Reading puts an empty mapping in the place of such a value, as it does
for a file without a document, so the check that comes after it never
sees the value that was there. The load then goes on as if the file were
empty (`load_topLevel`).
-/
import GitPersona.Proofs.Settings.Failure

namespace GitPersona.Settings

-- ================================================== statement vocabulary

/-- A value other than a mapping that counts as none. -/
inductive Hollow : Document → Prop
  | null : Hollow .null
  | no : Hollow (.bool false)
  | zero : Hollow (.int 0)
  | floatZero {x : Float} (h : (x == 0.0) = true) : Hollow (.float x)
  | emptyText : Hollow (.text "")
  | emptyBytes : Hollow (.bytes [])
  | emptyList : Hollow (.list [])
  | emptySet : Hollow (.set [])

/-- A load reads a YAML file with a value. -/
structure ReadsYaml (w : Workspace) (directory : Path) (path : Option Path)
    (file : Path)
    (d : Document) : Prop where
  chosen : chooseFile w directory path = .ok file
  format : Format.ofSuffix? file.suffix = some .yaml
  value : ∃ text, w.files.read? w.place.cwd file = .ok (some text)
    ∧ Yaml.read text = .ok d

variable {w : Workspace} {directory file : Path} {path : Option Path}
    {d : Document}

-- ============================================================ the value

theorem isVoid_iff (hd : ∀ entries, d ≠ .mapping entries) :
    d.isVoid = true ↔ Hollow d := by
  constructor
  · intro h
    cases d with
    | null => exact .null
    | bool b =>
        cases b with
        | false => exact .no
        | true => cases h
    | int i =>
        obtain rfl : i = 0 := beq_iff_eq.1 h
        exact .zero
    | float x => exact .floatZero h
    | text s =>
        obtain rfl : s = "" := beq_iff_eq.1 h
        exact .emptyText
    | bytes octets =>
        obtain rfl : octets = [] := List.isEmpty_iff.1 h
        exact .emptyBytes
    | moment kind written => cases h
    | list items =>
        obtain rfl : items = [] := List.isEmpty_iff.1 h
        exact .emptyList
    | set items =>
        obtain rfl : items = [] := List.isEmpty_iff.1 h
        exact .emptySet
    | mapping entries => exact absurd rfl (hd entries)
  · intro h
    cases h with
    | floatZero h => exact h
    | _ => rfl

/-- What is taken apart is the value itself, or an empty mapping in the place
of a hollow one. -/
theorem ReadsYaml.fileEntries_eq (h : ReadsYaml w directory path file d) :
    fileEntries w file = topEntries file
      (if d.isVoid then .mapping [] else d) := by
  obtain ⟨text, htext, hread⟩ := h.value
  have hformat : Format.yaml.read text
      = .ok (if d.isVoid then .mapping [] else d) := by
    show (Yaml.read text).map _ = _
    rw [hread]
    rfl
  rw [Settings.fileEntries_eq h.format,
    readDocument_eq_ok_iff.2 ⟨text, htext, hformat⟩]
  rfl

theorem ReadsYaml.load_eq (h : ReadsYaml w directory path file d) :
    load w directory path = topEntries file
      (if d.isVoid then .mapping [] else d) >>=
      fun entries => (build w.framework w.environment entries).mapError
        (buildFault file) := by
  show chooseFile w directory path >>= loadFile w = _
  rw [h.chosen, ← h.fileEntries_eq]
  exact loadFile_eq

theorem topEntries_of_not_mapping (hd : ∀ entries, d ≠ .mapping entries) :
    topEntries file d = .error (.mappingExpected file d.kindName) := by
  cases d with
  | mapping entries => exact absurd rfl (hd entries)
  | _ => rfl

/-- Building settings never complains about the top of a file. -/
theorem mapError_buildFault_ne {x : Except Mishap Settings} {kind : String} :
    x.mapError (buildFault file) ≠ .error (.mappingExpected file kind) := by
  intro h
  cases x with
  | ok settings => cases h
  | error m => cases m <;> cases h

-- =============================================================== main result

/-- A YAML file whose value is not a mapping is refused, saying that one was
expected, exactly when the value is not hollow. Over a hollow value the load
goes on as over a file without entries. -/
theorem load_topLevel (h : ReadsYaml w directory path file d)
    (hd : ∀ entries, d ≠ .mapping entries) :
    (load w directory path = .error (.mappingExpected file d.kindName)
      ↔ ¬Hollow d)
      ∧ (∃ report, (Fault.mappingExpected file d.kindName).report?
        = some report
          ∧ report.trouble = .configuration
          ∧ report.details = some
            ("Expected a mapping at the top level, got " ++ d.kindName))
      ∧ (Hollow d →
          load w directory path = (build w.framework w.environment []).mapError
            (buildFault file)) := by
  have hhollow : Hollow d →
      load w directory path = (build w.framework w.environment []).mapError
        (buildFault file) := by
    intro hd'
    rw [h.load_eq, if_pos ((isVoid_iff hd).2 hd')]
    rfl
  refine ⟨⟨fun hload hd' => ?_, fun hd' => ?_⟩, ⟨_, rfl, rfl, rfl⟩, hhollow⟩
  · rw [hhollow hd'] at hload
    exact mapError_buildFault_ne hload
  · rw [h.load_eq, if_neg fun hvoid => hd' ((isVoid_iff hd).1 hvoid),
      topEntries_of_not_mapping hd]
    rfl

/-- A workspace with one settings file in its root, where it runs. -/
def workspaceWith (text : String) : Workspace :=
  (CommandLine.worldOf "gitsetup.yml" (.file text) []).workspace

/-- How many empty lists make up a value that is a list of such. -/
def emptyListsIn? : Reading Document → Option Nat
  | .ok (.list items) => if items.all (· matches .list [])
      then some items.length else none
  | _ => none

theorem eq_of_emptyListsIn? {x : Reading Document} {n : Nat}
    (h : emptyListsIn? x = some n) :
    x = .ok (.list (List.replicate n (.list []))) := by
  unfold emptyListsIn? at h
  split at h
  · next items =>
    split at h
    · next hall =>
      have hitems : items = List.replicate n (.list []) := by
        refine List.eq_replicate_iff.2 ⟨Option.some.inj h, fun d hd => ?_⟩
        have hempty := List.all_eq_true.1 hall d hd
        split at hempty
        · rfl
        · cases hempty
      rw [hitems]
    · cases h
  · cases h

theorem readsYaml_workspaceWith {text : String} {d : Document}
    (hread : Yaml.read text = .ok d) :
    ReadsYaml (workspaceWith text) .root none (Path.parse "/gitsetup.yml") d
      where
  chosen := rfl
  format := by decide
  value := ⟨text, rfl, hread⟩

/-- A list with an empty list in it is refused. -/
theorem load_nestedList :
    load (workspaceWith "[[]]\n") .root none
      = .error (.mappingExpected (Path.parse "/gitsetup.yml") "list") := by
  have hread : Yaml.read "[[]]\n" = .ok (.list [.list []]) :=
    eq_of_emptyListsIn? (n := 1) (by decide +kernel)
  obtain ⟨hrefused, -, -⟩ :=
    load_topLevel (readsYaml_workspaceWith hread) (fun _ h => by cases h)
  refine hrefused.2 fun hhollow => ?_
  cases hhollow

/-- An empty list is no mapping, and gives settings all the same. -/
theorem load_emptyList :
    Yaml.read "[]\n" = .ok (.list [])
      ∧ ReadsYaml (workspaceWith "[]\n") .root none
        (Path.parse "/gitsetup.yml") (.list [])
      ∧ ∃ settings, load (workspaceWith "[]\n") .root none = .ok settings := by
  have hread : Yaml.read "[]\n" = .ok (.list []) :=
    eq_of_emptyListsIn? (n := 0) (by decide +kernel)
  have hload : (load (workspaceWith "[]\n") .root none).toOption.isSome
      = true := by
    decide +kernel
  refine ⟨hread, readsYaml_workspaceWith hread, ?_⟩
  cases hsettings : load (workspaceWith "[]\n") .root none with
  | ok settings => exact ⟨settings, rfl⟩
  | error f =>
      rw [hsettings] at hload
      cases hload

end GitPersona.Settings
