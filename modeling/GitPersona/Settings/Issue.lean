/-
Validation issues: what is wrong with a value, and where it stands. All
issues of a value are reported together.
-/
import GitPersona.Decimal.Binary

namespace GitPersona.Settings

/-- One step of the way to a value: a field of a mapping, or a
place in a list. -/
inductive Step
  | field (name : String)
  | index (n : Nat)
  deriving DecidableEq, Repr

/-- The sections that a setting can stand in, and what each holds. -/
inductive Section
  | detection
  | matching
  | profiles
  deriving DecidableEq, Repr

/-- The key of a section. -/
def Section.key : Section → String
  | .detection => "detection"
  | .matching => "matching"
  | .profiles => "profiles"

/-- Every section, in order. -/
def Section.all : List Section :=
  [.detection, .matching, .profiles]

/-- The name of what a section holds. -/
def Section.content : Section → String
  | .detection => "DetectionConfig"
  | .matching => "MatchConfig"
  | .profiles => "Profile"

/-- What can be wrong with a value. -/
inductive Problem
  | missing
  | textExpected
  | textNotUnicode
  | textEmpty
  | boolExpected
  | boolUnreadable
  | numberExpected
  | numberUnreadable
  | wholeExpected
  | wholeUnreadable
  | wholeTooLarge
  | wholeFractional
  | notFinite
  | below (bound : Nat)
  | above (bound : Nat)
  | notAbove (bound : Nat)
  | notOneOf (names : List String)
  | notNamed (names : List String)
  | listExpected
  | listEmpty
  | mappingExpected (content : String)
  | unknownKey
  | frozen
  deriving DecidableEq, Repr

/-- Names in quotes, the last two joined by "or". -/
def oneOf (names : List String) : String :=
  let quoted := names.map fun n => "'" ++ n ++ "'"
  match quoted.reverse with
  | last :: first :: rest => ", ".intercalate (first :: rest).reverse ++ " or "
      ++ last
  | [only] => only
  | [] => ""

namespace Problem

/-- The code of a problem. -/
def code : Problem → String
  | missing => "missing"
  | textExpected => "string_type"
  | textNotUnicode => "string_unicode"
  | textEmpty => "string_too_short"
  | boolExpected => "bool_type"
  | boolUnreadable => "bool_parsing"
  | numberExpected => "float_type"
  | numberUnreadable => "float_parsing"
  | wholeExpected => "int_type"
  | wholeUnreadable => "int_parsing"
  | wholeTooLarge => "int_parsing_size"
  | wholeFractional => "int_from_float"
  | notFinite => "finite_number"
  | below _ => "greater_than_equal"
  | above _ => "less_than_equal"
  | notAbove _ => "greater_than"
  | notOneOf _ => "enum"
  | notNamed _ => "literal_error"
  | listExpected => "list_type"
  | listEmpty => "too_short"
  | mappingExpected _ => "model_type"
  | unknownKey => "extra_forbidden"
  | frozen => "frozen_instance"

/-- The text of a problem. -/
def message : Problem → String
  | missing => "Field required"
  | textExpected => "Input should be a valid string"
  | textNotUnicode =>
    "Input should be a valid string, unable to parse raw data as a "
      ++ "unicode string"
  | textEmpty => "String should have at least 1 character"
  | boolExpected => "Input should be a valid boolean"
  | boolUnreadable =>
      "Input should be a valid boolean, unable to interpret input"
  | numberExpected => "Input should be a valid number"
  | numberUnreadable =>
      "Input should be a valid number, unable to parse string as a number"
  | wholeExpected => "Input should be a valid integer"
  | wholeUnreadable =>
      "Input should be a valid integer, unable to parse string as an integer"
  | wholeTooLarge =>
      "Unable to parse input string as an integer, exceeded maximum size"
  | wholeFractional =>
    "Input should be a valid integer, got a number with a fractional part"
  | notFinite => "Input should be a finite number"
  | below bound =>
    "Input should be greater than or equal to "
      ++ String.ofList (Decimal.digits bound)
  | above bound =>
    "Input should be less than or equal to "
      ++ String.ofList (Decimal.digits bound)
  | notAbove bound => "Input should be greater than "
      ++ String.ofList (Decimal.digits bound)
  | notOneOf names => "Input should be " ++ oneOf names
  | notNamed names => "Input should be " ++ oneOf names
  | listExpected => "Input should be a valid list"
  | listEmpty => "List should have at least 1 item after validation, not 0"
  | mappingExpected content =>
    "Input should be a valid dictionary or instance of " ++ content
  | unknownKey => "Extra inputs are not permitted"
  | frozen => "Instance is frozen"

end Problem

/-- A problem and the way to the value that has it. -/
structure Issue where
  location : List Step
  problem : Problem
  deriving DecidableEq, Repr

/-- The way to an issue, with dots between its steps. -/
def Issue.place (i : Issue) : String :=
  ".".intercalate (i.location.map fun
    | .field name => name
    | .index n => String.ofList (Decimal.digits n))

/-- The issues as lines of text, a line for the place and one for
the problem. -/
def issuesText (issues : List Issue) : String :=
  "\n".intercalate (issues.map fun i => i.place ++ "\n  " ++ i.problem.message)

end GitPersona.Settings
