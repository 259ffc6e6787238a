/-
The program. What a run works on is gathered first: the environment,
the host name, and the files that its command could touch. Git is asked
by whoever starts the program, who passes the listing of the local
configuration on standard input when a profile is to be detected.
-/
import GitPersona.CommandLine.Run
import GitPersona.CommandLine.Usage

namespace GitPersona.CommandLine

-- ================================================================ environment

/-- The names of the variables that settings are read from. -/
def variableNames : List String :=
  Settings.Section.all.flatMap fun part =>
    let name := String.ofList
      ((Settings.variableOf part).toList.map Char.toUpper)
    name :: (Settings.knownKeys part).map fun key =>
      name ++ "__" ++ String.ofList (key.toList.map Char.toUpper)

/-- The variables that are set. -/
def readEnvironment : IO Settings.Environment :=
  variableNames.filterMapM fun name => do
    return (← IO.getEnv name).map fun value => (name, value)

-- ====================================================================== files

/-- The paths of the files that a command could touch. -/
def touched : Command → List Path
  | .detect _ _ _ (some file) => [file]
  | .lookUp _ _ (some file) => [file]
  | .detect _ _ _ none => Settings.fileNames.map Path.parse
  | .lookUp _ _ none => Settings.fileNames.map Path.parse
  | .initialise output _ => [output]
  | _ => []

/-- The places that following a path leads through. -/
def places (place : Place) (p : Path) : List (List String) :=
  let p := place.cwd.join ((p.expandHome place.homes).toOption.getD p)
  (List.range (p.parts.length + 1)).map fun n => Path.collapse (p.parts.take n)

/-- The text of the path that leads to a place. -/
def placeText (place : List String) : String :=
  "/" ++ "/".intercalate place

/-- What stands at a place. -/
def readPlace (place : List String) : IO (Option FileTree.Entry) := do
  let file := (← IO.currentDir) / placeText place
  if ← file.isDir then return some .directory
  else if ← file.pathExists then return some (.file (← IO.FS.readFile file))
  else return none

/-- The files at some places. -/
def readFiles (ps : List (List String)) : IO FileTree := do
  let entries ← ps.filterMapM fun p => do
    return (← readPlace p).map fun e => (p, e)
  return ⟨entries⟩

/-- Brings the files up to date with the entries that a run has put before
the old ones. -/
def writeFiles (old new : FileTree) : IO Unit :=
  (new.entries.take (new.entries.length - old.entries.length)).reverse.forM
    fun (p, e) =>
    match e with
    | .file text => IO.FS.writeFile (placeText p) text
    | .directory => IO.FS.createDirAll (placeText p)

-- ================================================================ the program

/-- A git that answers with a listing of the local configuration. -/
def listingGit (listing : String) : Git :=
  { answer := fun command =>
      if Git.insideArguments.isSuffixOf command then .finished 0 "true\n" ""
      else .finished 0 listing "" }

/-- A line as it is printed. -/
def Line.printed : Line → String
  | .text s => s
  | .row cells => "  ".intercalate cells

/-- The host name of the system, if it can be read. -/
def readHostname : IO (Option String) := do
  try
    return some (Text.stripString (← IO.FS.readFile "/etc/hostname"))
  catch _ => return none

/-- Gathers what a command works on. -/
def gather (command : Command) : IO World := do
  let place : Place :=
    { homes := { own := ← IO.getEnv "HOME" }
      cwd := Path.parse (← IO.currentDir).toString }
  let files ← readFiles ((touched command).flatMap (places place))
  let listing ←
    match command with
    | .detect .. => (← IO.getStdin).readToEnd
    | _ => pure ""
  return {
    workspace := { place, files, environment := ← readEnvironment }
    git := listingGit listing
    hostname := ← readHostname }

/-- Says how a run ended. -/
def report (e : Ending) (seen : Shown) : IO Unit := do
  seen.output.forM fun line => IO.println line.printed
  match e with
  | .help => usage.forM IO.println
  | .misused m => IO.eprintln ("Error: " ++ m.text)
  | _ => seen.mishap.forM fun m => IO.eprintln m.text

end GitPersona.CommandLine

open GitPersona.CommandLine in
/-- Runs the program on its arguments. -/
def main (args : List String) : IO UInt32 := do
  match commandFrom args with
  | .error m =>
    let seen := (Ending.misused m).shown .plain
    report (.misused m) seen
    return UInt32.ofNat seen.exitCode
  | .ok command =>
    let world ← gather command
    let outcome := run world args
    writeFiles world.workspace.files outcome.files
    let seen := outcome.ending.shown .plain
    report outcome.ending seen
    return UInt32.ofNat seen.exitCode
