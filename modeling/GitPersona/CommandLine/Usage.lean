/-
What the program says about its own use.
-/
import GitPersona.CommandLine.Command

namespace GitPersona.CommandLine

/-- How the program is used. -/
def usage : List String :=
  ["Usage: gitsetup [--version] [--help] COMMAND [ARGS]",
    "",
    "Git identity profile detection and lookup",
    "",
    "Commands:",
    "  detect [PATH] [--all] [--min-confidence X] [--config FILE]",
    "      Detect which profile belongs to a repository.",
    "  match QUERY [--best] [--config FILE]",
    "      Find profiles by partial or misspelled name.",
    "  init-config [--output FILE] [--force]",
    "      Generate a default configuration file."]

/-- What is wrong with a command line, in words. -/
def Misuse.text : Misuse → String
  | .unknownOption name => "No such option: " ++ name
  | .valueMissing name => "Option '--" ++ name ++ "' requires an argument."
  | .valueUnexpected name => "Option '--" ++ name ++ "' does not take a value."
  | .valueInvalid name value => "Invalid value for '--" ++ name ++ "': "
      ++ value
  | .argumentMissing name => "Missing argument '" ++ name ++ "'."
  | .argumentUnexpected argument => "Got unexpected extra argument ("
      ++ argument ++ ")"
  | .commandUnknown name => "No such command '" ++ name ++ "'."
  | .commandMissing => "Missing command."

end GitPersona.CommandLine
