/-
Asking git about a directory. A question is a command line; the answer
is what the process left behind, or that there was none. What it wrote
is read in text mode, in which every line ends with a line feed. The
listing of the local configuration separates entries by NUL and a key
from its value by the first line break.
-/
import GitPersona.Context

namespace GitPersona

-- ==================================================================== replies

/-- How a run of git ended. -/
inductive Reply
  | finished (exitCode : Int) (output errors : String)
  | notStarted (reason : String)
  | timedOut

/-- Line ends as text mode gives them: a carriage return, with a line
feed after it or without one, is a line feed. -/
def lineFeeds : List Char → List Char
  | '\r' :: '\n' :: r => '\n' :: lineFeeds r
  | '\r' :: r => '\n' :: lineFeeds r
  | c :: r => c :: lineFeeds r
  | [] => []

/-- What a process wrote, read in text mode. -/
def readText (written : String) : String :=
  String.ofList (lineFeeds written.toList)

/-- A git to ask: its program, how long to wait for it, how it answers a
command, and how what it writes is read. -/
structure Git where
  program : String := "git"
  timeout : Int := 10
  answer : List String → Reply
  reading : String → String := readText

/-- The text of a list of characters without the blanks around it is empty. -/
def isBlankText (s : String) : Bool :=
  (Text.strip s.toList).isEmpty

namespace Git

/-- What git is asked to find out whether a directory is in a working tree. -/
def insideArguments : List String :=
  ["rev-parse", "--is-inside-work-tree"]

/-- What git is asked to list the local configuration. -/
def configArguments : List String :=
  ["config", "--local", "--list", "--null"]

/-- The command line of a question about a directory. -/
def command (g : Git) (directory : Path) (arguments : List String) :
    List String :=
  [g.program, "-C", directory.text] ++ arguments

/-- The exit code, output and errors of a question, if git answers. -/
def ask (g : Git) (directory : Path) (arguments : List String) :
    Except Fault (Int × String × String) :=
  match g.answer (g.command directory arguments) with
  | .finished exitCode output errors =>
    .ok (exitCode, g.reading output, g.reading errors)
  | .notStarted reason => .error (.gitNotStarted reason)
  | .timedOut => .error
      (.gitTimedOut g.timeout (g.command directory arguments))

/-- Whether a directory is inside a working tree. -/
def isInsideWorkTree (g : Git) (directory : Path) : Except Fault Bool :=
  (g.ask directory insideArguments).map fun (exitCode, output, _) =>
    exitCode == 0 && Text.stripString output == "true"

end Git

-- ==================================================================== listing

/-- An entry of a listing: the key up to the first line break,
then the value. -/
def listingEntry (record : List Char) : String × String :=
  (String.ofList (record.takeWhile (· != '\n')),
    String.ofList ((record.dropWhile (· != '\n')).drop 1))

/-- The entries of a listing, in order. -/
def listingEntries (output : List Char) : List (String × String) :=
  ((output.splitOn nul).filter (· != [])).map listingEntry

/-- The map that a listing describes: of several entries for a key the
last one counts. -/
def readListing (output : String) : Bindings :=
  .ofList (listingEntries output.toList)

/-- The name of the remote whose URL a configuration key sets: what stands
between `remote.` and `.url`, unless it is empty. -/
def remoteName? (key : String) : Option String :=
  let cs := key.toList
  let name := (cs.take (cs.length - 4)).drop 7
  if "remote.".toList.isPrefixOf cs && ".url".toList.isSuffixOf cs
    && !name.isEmpty then
    some (String.ofList name)
  else none

/-- The URL of each remote that a configuration sets. -/
def remotesOf (config : Bindings) : Bindings :=
  .ofList (config.entries.filterMap fun (key, value) =>
    (remoteName? key).map fun name => (name, value))

namespace Git

/-- The local configuration of the repository around a directory. An exit code
of one without a complaint means that there is none. -/
def localConfig (g : Git) (directory : Path) : Except Fault Bindings :=
  match g.ask directory configArguments with
  | .error f => .error f
  | .ok (exitCode, output, errors) =>
    if exitCode = 0 then .ok (readListing output)
    else if exitCode = 1 && isBlankText errors then .ok ∅
    else .error (.gitRefused exitCode (Text.stripString errors) directory)

/-- The remotes of the repository around a directory. -/
def remotes (g : Git) (directory : Path) : Except Fault Bindings :=
  (g.localConfig directory).map remotesOf

/-- The repositories that git knows. -/
def repository (g : Git) : Repository :=
  ⟨g.isInsideWorkTree, g.remotes, g.localConfig⟩

end Git

end GitPersona
