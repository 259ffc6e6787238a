/-
Everything that can go wrong, by cause. Some faults have a report for
the user; the others are mishaps that nobody reports.
-/
import GitPersona.Report
import GitPersona.Path
import GitPersona.Text.Quoted
import GitPersona.Settings.Issue
import GitPersona.Decimal.Fixed

namespace GitPersona

open Settings (Section Issue)

-- ================================================================== mishaps

/-- A fault that has no report. -/
inductive Mishap
  /-- A text leads to no path. -/
  | badPath (defect : Path.Defect)
  /-- A key at the top of the settings is not a text. -/
  | keyNotText
  /-- The environment variable of a section does not hold what it should. -/
  | environmentUnreadable (part : Section)
  /-- A directory stands where a file should. -/
  | isDirectory (path : String)
  /-- A file stands where a directory should. -/
  | notDirectory (path : String)
  /-- A file stands where a directory is to be made. -/
  | fileExists (path : String)
  /-- No algorithm has the name. -/
  | algorithmUnknown (name : String)
  /-- No signal has the name. -/
  | signalUnknown (name : String)
  /-- A value is refused by validation. -/
  | refused (issues : List Issue)
  /-- Room was to be made in a cache that holds nothing. -/
  | cacheEmpty
  /-- A scalar has the form of its kind but no value. -/
  | scalarWithoutValue (complaint : String)
  /-- The framework that settings are built with refuses an entry. -/
  | entryRefused (complaint : String)
  /-- A profile cannot be written as JSON. -/
  | unwritable (complaint : String)
  /-- The console cannot make sense of the marks in a text. -/
  | marksInvalid (complaint : String)
  deriving DecidableEq, Repr

/-- The text of a defect. -/
def Path.Defect.text : Path.Defect → String
  | .homeUnknown => "Could not determine home directory."
  | .nullByte => "embedded null byte"

/-- The text of a mishap. -/
def Mishap.text : Mishap → String
  | .badPath defect => defect.text
  | .keyNotText => "keywords must be strings"
  | .environmentUnreadable part =>
    "error parsing value for field \"" ++ part.key
      ++ "\" from source \"EnvSettingsSource\""
  | .isDirectory path => "[Errno 21] Is a directory: '" ++ path ++ "'"
  | .notDirectory path => "[Errno 20] Not a directory: '" ++ path ++ "'"
  | .fileExists path => "[Errno 17] File exists: '" ++ path ++ "'"
  | .algorithmUnknown name => Text.quoted name
  | .signalUnknown name => Text.quoted name
  | .refused issues => Settings.issuesText issues
  | .cacheEmpty => "'dictionary is empty'"
  | .scalarWithoutValue complaint => complaint
  | .entryRefused complaint => complaint
  | .unwritable complaint => complaint
  | .marksInvalid complaint => complaint

-- =================================================================== faults

/-- What can go wrong. -/
inductive Fault
  /-- A settings file does not exist. -/
  | settingsNotFound (file : Path)
  /-- A directory holds none of the files that settings are looked for in. -/
  | settingsNowhere (directory : Path) (names : List String)
  /-- A settings file has a suffix that names no known format. -/
  | formatUnsupported (suffix : String)
  /-- A settings file is not YAML. -/
  | yamlInvalid (file : Path) (complaint : String)
  /-- A settings file is not TOML. -/
  | tomlInvalid (file : Path) (complaint : String)
  /-- A settings file holds something other than a mapping. -/
  | mappingExpected (file : Path) (kind : String)
  /-- The values of a settings file are refused by validation. -/
  | settingsInvalid (file : Path) (issues : List Issue)
  /-- The file to write is there already. -/
  | alreadyExists (file : Path)
  /-- Git could not be started. -/
  | gitNotStarted (reason : String)
  /-- Git did not answer in time. -/
  | gitTimedOut (seconds : Int) (command : List String)
  /-- Git refused to list the local configuration. -/
  | gitRefused (exitCode : Int) (complaint : String) (directory : Path)
  /-- Whether a directory is in a working tree could not be found out. -/
  | inspectionFailed (directory : Path) (reason : String)
  /-- A directory is not inside a repository. -/
  | outsideRepository (directory : Path)
  /-- The signals of a repository could not be read. -/
  | signalsUnreadable (directory : Path) (reason : String)
  /-- No profile reaches the confidence asked for. -/
  | noProfileMatches (directory : Path) (floor : Float)
  /-- No profile has the name. -/
  | profileUnknown (name : String) (known : List String)
  /-- Something else reported its own trouble. -/
  | reported (report : Report)
  /-- A fault without a report. -/
  | mishap (cause : Mishap)

namespace Fault

/-- The fault over a text that leads to no path. -/
def ofDefect (defect : Path.Defect) : Fault :=
  .mishap (.badPath defect)

/-- What the user is told, where there is a report. -/
def report? : Fault → Option Report
  | settingsNotFound file =>
    some
      { trouble := .configuration
        message := "Configuration file not found: " ++ file.text
        fixHint := some
          "Create the file or run 'gitsetup init-config' to generate one" }
  | settingsNowhere directory names =>
    some
      { trouble := .configuration
        message := "No configuration file found"
        details := some
          ("Searched in " ++ directory.text ++ ": "
            ++ ", ".intercalate names)
        fixHint := some
          "Run 'gitsetup init-config' to create a configuration file" }
  | formatUnsupported suffix =>
    some
      { trouble := .configuration
        message := "Unsupported config format: " ++ suffix
        fixHint := some "Use .yml, .yaml, or .toml extension" }
  | yamlInvalid file complaint =>
    some
      { trouble := .configuration
        message := "Invalid YAML in " ++ file.text
        details := some complaint
        fixHint := some "Check YAML syntax at the indicated line" }
  | tomlInvalid file complaint =>
    some
      { trouble := .configuration
        message := "Invalid TOML in " ++ file.text
        details := some complaint
        fixHint := some "Check TOML syntax at the indicated line" }
  | mappingExpected file kind =>
    some
      { trouble := .configuration
        message := "Invalid configuration in " ++ file.text
        details := some ("Expected a mapping at the top level, got " ++ kind) }
  | settingsInvalid file issues =>
    some
      { trouble := .configuration
        message := "Invalid configuration in " ++ file.text
        details := some (Settings.issuesText issues)
        fixHint := some "Check the configuration values match expected types" }
  | alreadyExists file =>
    some
      { trouble := .configuration
        message := "Configuration file already exists: " ++ file.text
        fixHint := some "Use --force to overwrite it" }
  | gitNotStarted reason =>
    some
      { trouble := .git
        message := "Failed to run git"
        details := some reason
        fixHint := some "Ensure git is installed and on PATH" }
  | gitTimedOut seconds command =>
    some
      { trouble := .git
        message := "git timed out after " ++ Decimal.intText seconds ++ "s: "
          ++ " ".intercalate command
        fixHint := some "Check for a slow filesystem or a stuck git lock" }
  | gitRefused exitCode complaint directory =>
    some
      { trouble := .git
        message := "Failed to read local git config (exit code "
          ++ Decimal.intText exitCode ++ ")"
        details := if complaint = "" then none else some complaint
        fixHint := some ("Run 'git -C " ++ directory.text
          ++ " config --local --list' to inspect") }
  | inspectionFailed directory reason =>
    some
      { trouble := .contextExtraction
        message := "Failed to inspect " ++ directory.text
        details := some reason
        fixHint := some "Ensure git is installed and the path exists" }
  | outsideRepository directory =>
    some
      { trouble := .contextExtraction
        message := "Not inside a git repository: " ++ directory.text
        fixHint := some
          "Run from inside a repository or pass a repository path" }
  | signalsUnreadable directory reason =>
    some
      { trouble := .contextExtraction
        message := "Failed to read repository configuration in "
          ++ directory.text
        details := some reason
        fixHint := some ("Run 'git -C " ++ directory.text
          ++ " config --local --list' to inspect") }
  | noProfileMatches directory floor =>
    some
      { trouble := .noProfileMatch
        message := "No profile matches " ++ directory.text
        details := some
          ("No profile reached the minimum confidence of "
            ++ Decimal.fixed 2 floor)
        fixHint := some "Add a repos or match_patterns entry to a profile" }
  | profileUnknown name known =>
    some
      { trouble := .profileNotFound
        message := "Profile '" ++ name ++ "' not found"
        details := some ("Available profiles: "
          ++ (let names := ", ".intercalate known; if names = "" then "none"
            else names))
        fixHint := some
          ("Run 'gitsetup match " ++ name ++ "' to search by partial name") }
  | reported r => some r
  | mishap _ => none

/-- The whole text of a fault. -/
def text (f : Fault) : String :=
  match f.report?, f with
  | some r, _ => r.text
  | none, mishap m => m.text
  | none, _ => ""

end Fault

end GitPersona
