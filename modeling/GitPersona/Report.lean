/-
What a user is told when something goes wrong: a message, perhaps
details, perhaps a hint, and the exit code of the kind of trouble.
-/

namespace GitPersona

/-- The kinds of trouble that are reported to a user. -/
inductive Trouble
  | general
  | configuration
  | git
  | contextExtraction
  | noProfileMatch
  | profileNotFound
  deriving DecidableEq, Repr

/-- The exit code of a kind of trouble. -/
def Trouble.exitCode : Trouble → Nat
  | .general => 1
  | .configuration => 2
  | .git => 4
  | .contextExtraction => 5
  | .noProfileMatch => 6
  | .profileNotFound => 7

/-- What is reported. -/
structure Report where
  trouble : Trouble
  message : String
  details : Option String := none
  fixHint : Option String := none
  deriving DecidableEq, Repr

namespace Report

/-- A labelled further line, absent for an absent or empty text. -/
def line (label : String) : Option String → String
  | some text => if text = "" then "" else "\n" ++ label ++ text
  | none => ""

/-- The whole report as one text. -/
def text (r : Report) : String :=
  r.message ++ line "Details: " r.details ++ line "Fix: " r.fixHint

/-- The exit code that goes with the report. -/
def exitCode (r : Report) : Nat :=
  r.trouble.exitCode

end Report

end GitPersona
