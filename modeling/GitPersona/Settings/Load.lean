/-
Settings files: where they are looked for, and what they hold. A file
is YAML or TOML by its suffix; its values are laid over those of the
environment and then validated together.
-/
import GitPersona.Settings.Environment
import GitPersona.Yaml.Value
import GitPersona.Toml.Value
import GitPersona.FileTree
import GitPersona.Context

namespace GitPersona

/-- What a run of the program finds around it: where it runs, the files,
the environment, and the framework that settings are built with. -/
structure Workspace where
  place : Place
  files : FileTree
  environment : Settings.Environment
  framework : Settings.Framework := .plain

namespace Settings

-- ================================================================== searching

/-- The names of settings files, in the order in which they are looked for. -/
def fileNames : List String :=
  ["gitsetup.yml", "gitsetup.yaml", ".gitsetup.yml", "gitsetup.toml"]

/-- The first settings file of a directory. -/
def findFile (w : Workspace) (directory : Path) : Option Path :=
  (fileNames.map fun name => directory.join (.parse name)).find?
    (w.files.exists? w.place.cwd)

-- ==================================================================== reading

/-- The languages of settings files. -/
inductive Format
  | yaml
  | toml
  deriving DecidableEq, Repr

/-- The language that a suffix stands for. -/
def Format.ofSuffix? (suffix : String) : Option Format :=
  if suffix = ".yml" || suffix = ".yaml" then some .yaml
  else if suffix = ".toml" then some .toml
  else none

/-- The value of a text in a language. A YAML text whose value counts as none
is an empty mapping. -/
def Format.read (format : Format) (text : String) : Reading Document :=
  match format with
  | .yaml => (Yaml.read text).map fun d => if d.isVoid then .mapping [] else d
  | .toml => Toml.read text

/-- A file that is not of the language it should be. -/
def Format.fault (format : Format) (file : Path)
    (complaint : String) : Fault :=
  match format with
  | .yaml => .yamlInvalid file complaint
  | .toml => .tomlInvalid file complaint

/-- The value of a file in a language. -/
def readDocument (w : Workspace) (format : Format) (file : Path) :
    Except Fault Document :=
  match w.files.read? w.place.cwd file with
  | .error m => .error (.mishap m)
  | .ok none => .error (.settingsNotFound file)
  | .ok (some text) =>
    match format.read text with
    | .ok d => .ok d
    | .error (.invalid complaint) => .error (format.fault file complaint)
    | .error (.valueless complaint) =>
        .error (.mishap (.scalarWithoutValue complaint))

/-- The file that settings are read from: the one that a path names, seen from
a directory, or the first one that the directory has. -/
def chooseFile (w : Workspace) (directory : Path) (path : Option Path) :
    Except Fault Path :=
  match path with
  | some p =>
    match p.expandHome w.place.homes with
    | .ok p => .ok (directory.join p)
    | .error defect => .error (.ofDefect defect)
  | none =>
    match findFile w directory with
    | some file => .ok file
    | none => .error (.settingsNowhere directory fileNames)

/-- The entries of the value of a settings file, all with texts for keys. -/
def topEntries (file : Path) (d : Document) :
    Except Fault (List (String × Document)) :=
  match d with
  | .mapping entries =>
    entries.mapM fun (k, v) =>
      match k with
      | .text name => .ok (name, v)
      | _ => .error (.mishap .keyNotText)
  | d => .error (.mappingExpected file d.kindName)

/-- The settings of a file. -/
def loadFile (w : Workspace) (file : Path) : Except Fault Settings := do
  match Format.ofSuffix? file.suffix with
  | none => throw (.formatUnsupported file.suffix)
  | some format =>
    let entries ← topEntries file (← readDocument w format file)
    match build w.framework w.environment entries with
    | .ok settings => return settings
    | .error (.refused issues) => throw (.settingsInvalid file issues)
    | .error m => throw (.mishap m)

/-- The settings of the file that a path names, seen from a directory, or of
the first one that the directory has. -/
def load (w : Workspace) (directory : Path) (path : Option Path) :
    Except Fault Settings := do
  loadFile w (← chooseFile w directory path)

end Settings

end GitPersona
