/-
How loading settings ends. It gives settings that are valid, or a fault
of configuration that has a report, or a mishap: a fault that nobody
reports. The mishaps are known one by one (`Unreported`), and
`load_outcome` says that they are met exactly there. A command then ends
with the code of a configuration fault for what is reported, as long as
the console can make sense of the report, and with the general one, and
no output, for a mishap.

The stages are taken in the order in which a load goes through them. A
file is chosen, read and taken apart; the environment is gathered
section by section, where the first section that cannot be read decides;
and what both give is validated. Validation has no mishaps of its own:
what it refuses is reported with the file.
-/
import GitPersona.Proofs.Attempt
import GitPersona.Proofs.Settings.Precedence
import GitPersona.CommandLine.Run

namespace GitPersona

namespace Settings

variable {w : Workspace} {directory file : Path} {path : Option Path}
variable {m : Mishap} {f : Fault}

-- ====================================================== what goes unreported

/-- A fault of configuration that the user is told of, or a mishap. -/
def Accounted (f : Fault) : Prop :=
  (∃ r, f.report? = some r ∧ r.trouble = .configuration) ∨ ∃ m, f = .mishap m

-- ============================================================ the environment

variable {env : Bindings} {part : Section}

variable {format : Format}

/-- A file is read when there is a text in it that can be read. -/
theorem readDocument_eq_ok_iff {d : Document} :
    readDocument w format file = .ok d ↔
    ∃ text, w.files.read? w.place.cwd file = .ok (some text)
      ∧ format.read text = .ok d := by
  unfold readDocument
  cases htext : w.files.read? w.place.cwd file with
  | error m' => simp
  | ok o =>
      cases o with
      | none => simp
      | some text =>
          cases hread : format.read text with
          | ok d' => simp [hread]
          | error failure => cases failure <;> simp [hread]

/-- The entries of a file of a format. -/
theorem fileEntries_eq (hformat : Format.ofSuffix? file.suffix = some format) :
    fileEntries w file = readDocument w format file >>= topEntries file := by
  unfold fileEntries
  rw [hformat]

/-- The fault over a file whose values, with the environment, give
no settings. -/
def buildFault (file : Path) : Mishap → Fault
  | .refused issues => .settingsInvalid file issues
  | m => .mishap m

/-- The values of a file are taken apart, and then settings are
built from them. -/
theorem loadFile_eq : loadFile w file = fileEntries w file >>= fun entries =>
    (build w.framework w.environment entries).mapError
      (buildFault file) := by
  unfold loadFile fileEntries
  cases Format.ofSuffix? file.suffix with
  | none => rfl
  | some format =>
      cases hd : readDocument w format file with
      | error f =>
          simp only [hd]
          rfl
      | ok d =>
          simp only [hd]
          refine congrArg (topEntries file d >>= ·)
            (funext fun entries => ?_)
          cases build w.framework w.environment entries with
          | ok settings => rfl
          | error m => cases m <;> rfl

end Settings

-- =========================================================== the command line

namespace CommandLine

/-- A world with one file or directory in its root, where it runs, and
some variables. -/
def worldOf (name : String) (e : FileTree.Entry)
    (environment : Settings.Environment) : World where
  workspace :=
    { place := { homes := { own := some "/home/user" }, cwd := .root }
      files := { entries := [([name], e)] }
      environment }
  git := { answer := fun _ => .notStarted "No such file or directory" }
  hostname := none

end CommandLine

end GitPersona
