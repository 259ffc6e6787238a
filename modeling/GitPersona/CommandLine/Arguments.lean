/-
Reading command line arguments against a list of options. An option has
a long name after two hyphens and may have a letter after one. Letters
of options without a value can share a hyphen; the value of an option
follows it in the same argument or is the next one. Two hyphens alone
end the options.
-/

namespace GitPersona.CommandLine

/-- An option that a command has. -/
structure Switch where
  /-- The name, without the hyphens. -/
  name : String
  letter : Option Char := none
  /-- The option is followed by a value. -/
  takesValue : Bool := false
  deriving DecidableEq, Repr

/-- An option that was given, with its value. -/
structure Given where
  name : String
  value : Option String := none
  deriving DecidableEq, Repr

/-- What is wrong with a command line. -/
inductive Misuse
  | unknownOption (name : String)
  | valueMissing (name : String)
  | valueUnexpected (name : String)
  | valueInvalid (name value : String)
  | argumentMissing (name : String)
  | argumentUnexpected (argument : String)
  | commandUnknown (name : String)
  | commandMissing
  deriving DecidableEq, Repr

/-- Arguments that were read: the options given, in order, and the
other arguments. -/
structure Arguments where
  given : List Given := []
  others : List String := []
  deriving DecidableEq, Repr

namespace Arguments

/-- The value that an option has in the end. -/
def value? (a : Arguments) (name : String) : Option String :=
  (a.given.reverse.find? (·.name == name)).bind Given.value

/-- An option was given. -/
def has (a : Arguments) (name : String) : Bool :=
  a.given.any (·.name == name)

end Arguments

/-- What an argument is. -/
inductive Kind
  | endOfOptions
  | options
  | other
  deriving DecidableEq, Repr

/-- The kind of an argument. -/
def kindOf (argument : String) : Kind :=
  if argument = "--" then .endOfOptions
  else
    match argument.toList with
    | '-' :: _ :: _ => .options
    | _ => .other

/-- An option followed by its value: what is left of its own argument, or the
next argument. -/
def withValue (s : Switch) (own : Option String) (rest : List String) :
    Except Misuse (Given × List String) :=
  match own, rest with
  | some value, _ => .ok (⟨s.name, some value⟩, rest)
  | none, value :: rest => .ok (⟨s.name, some value⟩, rest)
  | none, [] => .error (.valueMissing s.name)

/-- The options that the letters after a hyphen stand for. -/
def letters (switches : List Switch) :
    List Char → List String → Except Misuse (List Given × List String)
  | [], rest => .ok ([], rest)
  | c :: cs, rest =>
    match switches.find? (·.letter == some c) with
    | none => .error (.unknownOption (String.ofList ['-', c]))
    | some s =>
      if s.takesValue then
        let own := if cs.isEmpty then none else some (String.ofList cs)
        (withValue s own rest).map fun (g, rest) => ([g], rest)
      else
        (letters switches cs rest).map fun (gs, rest) =>
          (⟨s.name, none⟩ :: gs, rest)

/-- The options that an argument stands for, and the arguments after it
and its value. -/
def options (switches : List Switch) (argument : String) (rest : List String) :
    Except Misuse (List Given × List String) :=
  let cs := argument.toList
  let long := cs.takeWhile (· != '=')
  let own :=
    match cs.dropWhile (· != '=') with
    | _ :: value => some (String.ofList value)
    | [] => none
  match switches.find? fun s => "--".toList ++ s.name.toList == long with
  | some s =>
    if s.takesValue then
      (withValue s own rest).map fun (g, rest) => ([g], rest)
    else if own.isSome then .error (.valueUnexpected s.name)
    else .ok ([⟨s.name, none⟩], rest)
  | none =>
    if "--".toList.isPrefixOf cs then
      .error (.unknownOption (String.ofList long))
    else letters switches (cs.drop 1) rest

/-- Reads arguments. Where options are not mixed with other arguments, the
first of these ends them. -/
def read (switches : List Switch) (mixed : Bool) :
    Nat → List String → Except Misuse Arguments
  | 0, rest => .ok { others := rest }
  | _ + 1, [] => .ok {}
  | fuel + 1, argument :: rest =>
    match kindOf argument with
    | .endOfOptions => .ok { others := rest }
    | .options => do
      let (given, rest) ← options switches argument rest
      let a ← read switches mixed fuel rest
      return { a with given := given ++ a.given }
    | .other =>
      if mixed then do
        let a ← read switches mixed fuel rest
        return { a with others := argument :: a.others }
      else .ok { others := argument :: rest }

end GitPersona.CommandLine
