/-
The commands of the program, read from its arguments.
-/
import GitPersona.CommandLine.Arguments
import GitPersona.Path
import GitPersona.Text.Blank
import GitPersona.Decimal.Reader

namespace GitPersona.CommandLine

/-- What the program is asked to do. -/
inductive Command
  | help
  | version
  /-- Detects the profile of a directory, or ranks all that could be it. -/
  | detect (directory : Option Path) (all : Bool) (floor : Option Float)
      (settings : Option Path)
  /-- Looks profiles up by a query, or the best one alone. -/
  | lookUp (query : String) (best : Bool) (settings : Option Path)
  /-- Writes a settings file to start from. -/
  | initialise (output : Path) (replace : Bool)

-- ============================================================== their options

/-- The option that asks for help. -/
def helpSwitch : Switch :=
  { name := "help" }

/-- The options before a command. -/
def leadSwitches : List Switch :=
  [{ name := "version", letter := some 'V' }, helpSwitch]

/-- The option that names a settings file. -/
def settingsSwitch : Switch :=
  { name := "config", letter := some 'c', takesValue := true }

/-- The options of detection. -/
def detectSwitches : List Switch :=
  [{ name := "all", letter := some 'a' },
    { name := "min-confidence", takesValue := true },
    settingsSwitch, helpSwitch]

/-- The options of lookup. -/
def lookUpSwitches : List Switch :=
  [{ name := "best", letter := some 'b' }, settingsSwitch, helpSwitch]

/-- The options of writing a settings file. -/
def initialiseSwitches : List Switch :=
  [{ name := "output", letter := some 'o', takesValue := true },
    { name := "force", letter := some 'f' }, helpSwitch]

-- ==================================================================== values

/-- Digits, with single underscores between them taken out; nothing if an
underscore stands elsewhere. -/
def withoutUnderscores? : List Char → Option (List Char)
  | a :: '_' :: b :: r =>
    if a.isDigit && b.isDigit then (withoutUnderscores? (b :: r)).map (a :: ·)
      else none
  | '_' :: _ => none
  | c :: r => (withoutUnderscores? r).map (c :: ·)
  | [] => some []

/-- The float that an argument spells. -/
def floatOf? (s : String) : Option Float :=
  (withoutUnderscores? (Text.strip s.toList)).bind Decimal.float?

/-- A confidence: a float that is not below nothing and not above one. -/
def confidence (s : String) : Except Misuse Float :=
  match floatOf? s with
  | some x =>
    if x < 0.0 || x > 1.0 then .error (.valueInvalid "min-confidence" s)
      else .ok x
  | none => .error (.valueInvalid "min-confidence" s)

-- ================================================================== commands

/-- Reads the arguments of a command, and then the command, unless they
ask for help. -/
def commandOf (switches : List Switch) (args : List String)
    (make : Arguments → Except Misuse Command) : Except Misuse Command := do
  let a ← read switches true (args.length + 1) args
  if a.has "help" then return .help else make a

/-- There are no more arguments than were taken. -/
def noMore : List String → Except Misuse Unit
  | [] => .ok ()
  | argument :: _ => .error (.argumentUnexpected argument)

/-- The settings file that arguments name. -/
def settingsOf (a : Arguments) : Option Path :=
  (a.value? "config").map Path.parse

/-- Detection, by its arguments. -/
def detectOf (a : Arguments) : Except Misuse Command := do
  let floor ← (a.value? "min-confidence").mapM confidence
  noMore (a.others.drop 1)
  return .detect (a.others.head?.map Path.parse) (a.has "all") floor
    (settingsOf a)

/-- Lookup, by its arguments. -/
def lookUpOf (a : Arguments) : Except Misuse Command := do
  match a.others with
  | [] => throw (.argumentMissing "QUERY")
  | query :: more =>
    noMore more
    return .lookUp query (a.has "best") (settingsOf a)

/-- Writing a settings file, by its arguments. -/
def initialiseOf (a : Arguments) : Except Misuse Command := do
  noMore a.others
  return .initialise (Path.parse ((a.value? "output").getD "gitsetup.yml"))
    (a.has "force")

/-- What the options before a command ask for. Of help and version, the one
that was given first counts. -/
def leadOf (a : Arguments) : Option Command :=
  a.given.head?.map fun g => if g.name = "version" then .version else .help

/-- Reads the options before a command. -/
def readLead (args : List String) : Except Misuse Arguments :=
  read leadSwitches false (args.length + 1) args

/-- The command that the arguments of the program ask for. An option that two
hyphens made the name of a command is still one. -/
def commandFrom (args : List String) : Except Misuse Command := do
  let a ← readLead args
  match leadOf a, a.others with
  | some command, _ => return command
  | none, [] => throw .commandMissing
  | none, name :: rest =>
    match name with
    | "detect" => commandOf detectSwitches rest detectOf
    | "match" => commandOf lookUpSwitches rest lookUpOf
    | "init-config" => commandOf initialiseSwitches rest initialiseOf
    | _ =>
      match leadOf (← readLead (name :: rest)) with
      | some command => return command
      | none => throw (.commandUnknown name)

end GitPersona.CommandLine
