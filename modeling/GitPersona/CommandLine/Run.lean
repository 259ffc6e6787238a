/-
Running the program. A run is a function of its arguments and of what
it finds around it; it prints texts and tables, may change files, and
ends with an exit code. What it prints is seen through a console, which
reads marks in it; marks that make no sense end the run.
-/
import GitPersona.CommandLine.Command
import GitPersona.Settings.Template
import GitPersona.Detection.Detector
import GitPersona.Lookup.Matcher
import GitPersona.Git

namespace GitPersona.CommandLine

-- =========================================================== what it works on

/-- A line of output, or the cells of a table's row. -/
inductive Line
  | text (s : String)
  | row (cells : List String)
  deriving DecidableEq, Repr

/-- What is printed at once: a text, or a table under a title. Any of it
may hold marks for the console, such as a colour in brackets. -/
inductive Print
  | text (s : String)
  | table (title : String) (rows : List (List String))
  deriving DecidableEq, Repr

/-- A console: the lines that it shows of a print, or its complaint about
the marks in it. -/
structure Console where
  print : Print → Except String (List Line)

/-- What a run works on. -/
structure World where
  workspace : Workspace
  git : Git
  /-- The name that the system gives itself. -/
  hostname : Option String
  /-- The complaint of the JSON writer about a profile that it refuses. -/
  refusal? : Profile → Option String := fun _ => none

/-- How a run ends. -/
inductive Ending
  /-- With an exit code, after some prints. -/
  | finished (exitCode : Nat) (prints : List Print)
  /-- With help on how to use the program. -/
  | help
  /-- With a complaint about the command line. -/
  | misused (m : Misuse)
  /-- With a fault. -/
  | failed (f : Fault)

/-- How a run ends, and the files it leaves. -/
structure Outcome where
  ending : Ending
  files : FileTree

-- =================================================================== printing

/-- The version of the program. -/
def version : String := "0.1.0"

/-- A number as it is shown, with two decimals. -/
def twoDecimals (x : Float) : String :=
  Decimal.fixed 2 x

/-- A number in parentheses. -/
def bracketed (x : Float) : String :=
  "(" ++ twoDecimals x ++ ")"

/-- A text between the marks of a colour. -/
def coloured (colour s : String) : String :=
  "[" ++ colour ++ "]" ++ s ++ "[/" ++ colour ++ "]"

/-- The table of a ranking. -/
def rankingTable (ranking : List Detection.Detected) : Print :=
  .table "Detected Profiles"
    (["Profile", "Confidence", "Rules", "Reason"] :: ranking.map fun d =>
      [d.profile.name, twoDecimals d.confidence,
        ", ".intercalate
          (d.fired.map fun r => r.name ++ " " ++ bracketed r.confidence),
        d.reason])

/-- The table of lookup results. -/
def matchTable (results : List Lookup.Match) : Print :=
  .table "Matching Profiles"
    (["Profile", "Score", "Matched on", "Email"] :: results.map fun m =>
      [m.profile.name, twoDecimals m.score,
        ((m.primaryField.map fun f => f.field.displayName).getD ""),
        m.profile.email])

/-- A fault as it is printed. -/
def faultPrint (f : Fault) : Print :=
  .text (coloured "red" "Error:" ++ " " ++ f.text)

-- =================================================================== commands

/-- What detection sees of the world. -/
def World.surroundings (w : World) (settings : Settings) :
    Detection.Surroundings :=
  { place := w.workspace.place
    profiles := settings.profiles
    repository := w.git.repository
    hostname := hostnameOr w.hostname
    now := 0.0
    refusal? := w.refusal? }

/-- The settings that a command goes by. -/
def World.load (w : World) (settings : Option Path) : Except Fault Settings :=
  Settings.load w.workspace w.workspace.place.cwd settings

/-- Detects profiles. -/
def detect (w : World) (directory : Option Path) (all : Bool)
    (floor : Option Float)
    (file : Option Path) : Except Fault Ending := do
  let settings ← w.load file
  let d := settings.detection
  let d := { d with minConfidence := floor.getD d.minConfidence }
  let path := (directory.getD w.workspace.place.cwd).text
  let answer := (Detection.Detector.new d).detectAll (w.surroundings settings)
    (some path) none
  return match ← answer.ranking with
    | [] =>
      .finished 1
        [.text (coloured "yellow" "No profile matches this repository."),
          .text "Pick one explicitly with 'gitsetup match <name>'."]
    | best :: more =>
      if all then .finished 0 [rankingTable (best :: more)]
      else
        .finished 0
          [.text (coloured "green" best.profile.name ++ " "
            ++ bracketed best.confidence ++ " - " ++ best.reason)]

/-- Looks profiles up. -/
def lookUp (w : World) (query : String) (best : Bool) (file : Option Path) :
    Except Fault Ending := do
  let settings ← w.load file
  let m := Lookup.Matcher.ofSettings settings.matching
  if best then
    return match m.findBest? query settings.profiles with
      | some r =>
        .finished 0
          [.text (coloured "green" r.profile.name ++ " " ++ bracketed r.score)]
      | none =>
        .finished 1
          [.text (coloured "yellow"
              ("No single profile clearly matches '" ++ query ++ "'.")),
            .text ("Run 'gitsetup match " ++ query ++ "' to see candidates.")]
  else
    return match m.findMatches query settings.profiles with
      | [] =>
        .finished 1
          [.text (coloured "yellow" ("No profiles match '" ++ query ++ "'."))]
      | results => .finished 0 [matchTable results]

/-- An ending that leaves the files as they are. -/
def World.leaving (w : World) (e : Except Fault Ending) : Outcome :=
  match e with
  | .ok ending => ⟨ending, w.workspace.files⟩
  | .error f => ⟨.failed f, w.workspace.files⟩

/-- Carries out a command. -/
def execute (w : World) : Command → Outcome
  | .help => ⟨.help, w.workspace.files⟩
  | .version => ⟨.finished 0 [.text ("gitsetup version " ++ version)],
      w.workspace.files⟩
  | .detect directory all floor file =>
      w.leaving (detect w directory all floor file)
  | .lookUp query best file => w.leaving (lookUp w query best file)
  | .initialise output replace =>
    let writing := Settings.writeTemplate w.workspace output replace
    match writing.result with
    | .ok written =>
      ⟨.finished 0
          [.text
            (coloured "green" ("Wrote configuration to " ++ written.text))],
        writing.files⟩
    | .error f => ⟨.failed f, writing.files⟩

/-- Runs the program. -/
def run (w : World) (args : List String) : Outcome :=
  match commandFrom args with
  | .ok command => execute w command
  | .error m => ⟨.misused m, w.workspace.files⟩

-- =============================================================== what is seen

/-- What is seen of a run: its exit code, the lines that were printed, and
the mishap that cut it short, if there was one. -/
structure Shown where
  exitCode : Nat
  output : List Line := []
  mishap : Option Mishap := none

namespace Console

/-- Prints one thing after another, up to one that the console cannot
make sense of. -/
def printAll (console : Console) : List Print → List Line × Option Mishap
  | [] => ([], none)
  | p :: ps =>
    match console.print p with
    | .error complaint => ([], some (.marksInvalid complaint))
    | .ok lines =>
      let (more, mishap) := console.printAll ps
      (lines ++ more, mishap)

/-- What is seen of prints that are to end with an exit code. A mishap
among them ends the run with the general one. -/
def finish (console : Console) (exitCode : Nat)
    (prints : List Print) : Shown :=
  match console.printAll prints with
  | (output, none) => { exitCode, output }
  | (output, some m) =>
    { exitCode := Trouble.general.exitCode, output, mishap := some m }

/-- A text without the marks of the colours that the program uses. -/
def unmarked (s : String) : String :=
  ["red", "green", "yellow"].foldl (fun s colour =>
    (s.replace ("[" ++ colour ++ "]") "").replace ("[/" ++ colour ++ "]") "") s

/-- A console that takes those marks away and knows no others. -/
def plain : Console where
  print
    | .text s =>
      .ok (((unmarked s).toList.splitOn '\n').map fun cs =>
        .text (String.ofList cs))
    | .table title rows => .ok (.text title :: rows.map .row)

end Console

/-- What is seen of an ending. A mishap is not printed. -/
def Ending.shown (console : Console) : Ending → Shown
  | .finished exitCode prints => console.finish exitCode prints
  | .help => { exitCode := 0 }
  | .misused _ => { exitCode := 2 }
  | .failed (.mishap m) =>
    { exitCode := Trouble.general.exitCode, mishap := some m }
  | .failed f =>
    console.finish
      ((f.report?.map Report.exitCode).getD Trouble.general.exitCode)
      [faultPrint f]

end GitPersona.CommandLine
