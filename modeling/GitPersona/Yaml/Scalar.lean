/-
What scalars mean. A plain scalar without a tag is of the first kind
whose form it has, and otherwise a text. The forms are those of YAML
1.1: truth values have words for them, integers come in four bases and
in base sixty, a float has a point and an exponent with a sign.
-/
import GitPersona.Yaml.Cursor
import GitPersona.Yaml.Node
import GitPersona.Calendar
import GitPersona.Document
import GitPersona.Decimal.Reader
import GitPersona.Text.Base64
import GitPersona.Text.Blank
import GitPersona.Text.Quoted

namespace GitPersona.Yaml

open Reading (refuse valueless)

-- =============================================================== small forms

/-- A digit or an underscore. -/
def isLooseDigit (c : Char) : Bool :=
  c.isDigit || c == '_'

/-- A text without its sign. -/
def unsigned : List Char → List Char
  | '-' :: r => r
  | '+' :: r => r
  | r => r

/-- A digit, or two of which the first is at most five. -/
def isSixty : List Char → Bool
  | [d] => d.isDigit
  | [t, d] => '0' ≤ t && t ≤ '5' && d.isDigit
  | _ => false

/-- Nothing, or an exponent with a sign. -/
def isExponent : List Char → Bool
  | [] => true
  | e :: sign :: d :: ds =>
    (e == 'e' || e == 'E') && (sign == '-' || sign == '+')
      && (d :: ds).all Char.isDigit
  | _ => false

/-- A text and the text without its first letter in capitals, and the text
in capitals. -/
def wordForms : List String :=
  ["yes", "Yes", "YES", "no", "No", "NO",
    "true", "True", "TRUE", "false", "False", "FALSE",
    "on", "On", "ON", "off", "Off", "OFF"]

/-- A truth value. -/
def isBoolForm (cs : List Char) : Bool :=
  wordForms.contains (String.ofList cs)

/-- A null. -/
def isNullForm (cs : List Char) : Bool :=
  ["~", "null", "Null", "NULL", ""].contains (String.ofList cs)

-- ==================================================================== numbers

/-- A decimal with a point after its first digits. -/
def isPointForm : List Char → Bool
  | d :: r =>
    d.isDigit &&
      match r.dropWhile isLooseDigit with
      | '.' :: u => isExponent (u.dropWhile isLooseDigit)
      | _ => false
  | [] => false

/-- A decimal that starts with its point. -/
def isBarePointForm : List Char → Bool
  | '.' :: d :: r => d.isDigit && isExponent (r.dropWhile isLooseDigit)
  | _ => false

/-- Groups in base sixty: the first group has the form given, the last one the
other form, and there are at least two. -/
def areSixties (first last : List Char → Bool)
    (groups : List (List Char)) : Bool :=
  match groups with
  | g :: rest =>
    first g && !rest.isEmpty && rest.dropLast.all isSixty
      && last (rest.getLast?.getD [])
  | [] => false

/-- A number of base sixty with a point after its last group. -/
def isSixtyPointForm (cs : List Char) : Bool :=
  let first (g : List Char) := g.head?.any Char.isDigit && g.all isLooseDigit
  let last (g : List Char) :=
    isSixty (g.takeWhile (· != '.')) &&
      match g.dropWhile (· != '.') with
      | '.' :: u => u.all isLooseDigit
      | _ => false
  areSixties first last (cs.splitOn ':')

/-- A float. -/
def isFloatForm (cs : List Char) : Bool :=
  isPointForm (unsigned cs) || isBarePointForm cs
    || isSixtyPointForm (unsigned cs)
    || [".inf", ".Inf", ".INF"].contains (String.ofList (unsigned cs))
    || [".nan", ".NaN", ".NAN"].contains (String.ofList cs)

/-- Digits and underscores, at least one, all of the class. -/
def isRun (p : Char → Bool) (cs : List Char) : Bool :=
  !cs.isEmpty && cs.all fun c => p c || c == '_'

/-- A digit of base ten that does not start an octal number, then any. -/
def isDecimalRun : List Char → Bool
  | d :: r => d.isDigit && d != '0' && r.all isLooseDigit
  | [] => false

/-- An integer. -/
def isIntForm (cs : List Char) : Bool :=
  match unsigned cs with
  | ['0'] => true
  | '0' :: 'b' :: r => isRun (fun c => c == '0' || c == '1') r
  | '0' :: 'x' :: r => isRun Decimal.isHexDigit r
  | '0' :: r => isRun (fun c => '0' ≤ c && c ≤ '7') r
  | r => isDecimalRun r || areSixties isDecimalRun isSixty (r.splitOn ':')

-- ================================================================= timestamps

/-- A moment as it is written, with the offset from universal
time in minutes. -/
structure Stamp where
  year : Nat
  month : Nat
  day : Nat
  time : Option (Nat × Nat × Nat) := none
  offset : Nat := 0

/-- At least so many digits, at most so many, and what follows. -/
def digitsBetween? (least most : Nat) (cs : List Char) :
    Option (Nat × List Char) :=
  let ds := (cs.take most).takeWhile Char.isDigit
  if ds.length < least then none
    else some (Decimal.digitsValue ds, cs.drop ds.length)

/-- What follows a character, if the text starts with it. -/
def after? (c : Char) : List Char → Option (List Char)
  | d :: r => if c = d then some r else none
  | [] => none

/-- An offset from universal time, with any blanks before it, up to the end
of the text. -/
def offset? (cs : List Char) : Option Nat :=
  match cs.dropWhile isGap with
  | [] => if cs.isEmpty then some 0 else none
  | ['Z'] => some 0
  | sign :: r => do
    if sign != '-' && sign != '+' then none
    let (hours, r) ← digitsBetween? 1 2 r
    match r with
    | [] => return hours * 60
    | r =>
      let (minutes, r) ← digitsBetween? 2 2 (← after? ':' r)
      if r.isEmpty then return hours * 60 + minutes else none

/-- What stands between a date and a time. -/
def afterDate? : List Char → Option (List Char)
  | 'T' :: r => some r
  | 't' :: r => some r
  | c :: r => if isGap c then some (r.dropWhile isGap) else none
  | [] => none

/-- A time of day and the offset, up to the end of the text. -/
def timeOfDay? (cs : List Char) : Option ((Nat × Nat × Nat) × Nat) := do
  let (hour, r) ← digitsBetween? 1 2 cs
  let (minute, r) ← digitsBetween? 2 2 (← after? ':' r)
  let (second, r) ← digitsBetween? 2 2 (← after? ':' r)
  let r :=
    match r with
    | '.' :: r => r.dropWhile Char.isDigit
    | r => r
  return ((hour, minute, second), ← offset? r)

/-- A date, with two digits for month and day when it stands alone, or a date
with a time. -/
def stamp? (cs : List Char) : Option Stamp := do
  let (year, r) ← digitsBetween? 4 4 cs
  let (month, r) ← digitsBetween? 1 2 (← after? '-' r)
  let (day, r) ← digitsBetween? 1 2 (← after? '-' r)
  if r.isEmpty then
    if cs.length = 10 then return { year, month, day } else none
  else
    let (time, offset) ← timeOfDay? (← afterDate? r)
    return { year, month, day, time := some time, offset }

/-- What is wrong with a moment, if there is no such moment. -/
def Stamp.problem? (s : Stamp) : Option String :=
  if 24 * 60 ≤ s.offset then some "offset must be less than 24 hours"
  else
    match Calendar.dateProblem? s.year s.month s.day, s.time with
    | some problem, _ => some problem
    | none, some (hour, minute, second) =>
        Calendar.timeProblem? hour minute second
    | none, none => none

-- ================================================================= resolution

/-- The kind of a plain scalar. -/
def plainTag (s : String) : Tag :=
  let cs := s.toList
  if isBoolForm cs then .bool
  else if isFloatForm cs then .float
  else if isIntForm cs then .int
  else if s == "<<" then .merge
  else if isNullForm cs then .null
  else if (stamp? cs).isSome then .timestamp
  else if s == "=" then .value
  else .text

-- ===================================================================== values

/-- A truth value. -/
def boolOf (s : String) : Reading Document :=
  match String.ofList (s.toList.map Char.toLower) with
  | "yes" | "true" | "on" => .ok (.bool true)
  | "no" | "false" | "off" => .ok (.bool false)
  | _ => valueless (Text.quoted s)

/-- The sign of a number, and the number without it. -/
def signOf : List Char → Int × List Char
  | '-' :: r => (-1, r)
  | '+' :: r => (1, r)
  | r => (1, r)

/-- The longest decimal that is read. -/
def longestDecimal : Nat := 4300

/-- The number that a text spells in a base, blanks around it and a
sign allowed. -/
def wholeIn (base : Nat) (cs : List Char) : Reading Int :=
  let (sign, ds) := signOf (Text.strip cs)
  let ds :=
    match base, ds with
    | 8, '0' :: 'o' :: r => r
    | _, r => r
  if ds.isEmpty || !ds.all fun c => Decimal.isHexDigit c
    && Decimal.hexValue c < base then
    valueless ("invalid literal for int() with base "
      ++ String.ofList (Decimal.digits base) ++ ": "
      ++ Text.quoted (String.ofList cs))
  else if base = 10 && longestDecimal < ds.length then
    valueless "Exceeds the limit (4300 digits) for integer string conversion"
  else .ok (sign * (Decimal.baseValue base ds : Nat))

/-- An integer. -/
def intOf (s : String) : Reading Document := do
  let (sign, cs) := signOf (s.toList.filter (· != '_'))
  let i ←
    match cs with
    | [] => valueless "string index out of range"
    | ['0'] => pure 0
    | '0' :: 'b' :: r => wholeIn 2 r
    | '0' :: 'x' :: r => wholeIn 16 r
    | '0' :: r => wholeIn 8 ('0' :: r)
    | cs =>
      if cs.contains ':' then do
        let groups ← (cs.splitOn ':').mapM (wholeIn 10)
        pure (groups.foldl (fun n g => 60 * n + g) 0)
      else wholeIn 10 cs
  return .int (sign * i)

/-- The float that a text spells, blanks around it allowed. -/
def decimalOf (cs : List Char) : Reading Float :=
  match Decimal.float? (Text.strip cs) with
  | some x => .ok x
  | none => valueless
      ("could not convert string to float: " ++ Text.quoted (String.ofList cs))

/-- A number of base sixty: the groups, last one first, each
times its power. -/
def sixtyValue (groups : List Float) : Float :=
  (groups.reverse.foldl (fun (x, power) g => (x + g * power, power * 60.0))
    (0.0, 1.0)).1

/-- A float. -/
def floatOf (s : String) : Reading Document := do
  let (sign, cs) := signOf ((s.toList.filter (· != '_')).map Char.toLower)
  let x ←
    match String.ofList cs with
    | "" => valueless "string index out of range"
    | ".inf" => pure (1.0 / 0.0)
    | ".nan" => pure (0.0 / 0.0)
    | _ =>
      if cs.contains ':' then do
        let groups ← (cs.splitOn ':').mapM decimalOf
        pure (sixtyValue groups)
      else decimalOf cs
  return .float (if sign < 0 then -x else x)

/-- A moment. -/
def momentOf (s : String) : Reading Document :=
  match stamp? s.toList with
  | none => valueless "no date"
  | some stamp =>
    match stamp.problem? with
    | some problem => valueless problem
    | none => .ok (.moment (if stamp.time.isSome then .dateTime else .date) s)

/-- Octets in base 64. -/
def bytesOf (s : String) : Reading Document :=
  if s.toList.any fun c => 0x80 ≤ c.toNat then
    refuse "failed to convert base64 data into ascii"
  else
    match Text.ofBase64? s.toList with
    | some octets => .ok (.bytes octets)
    | none => refuse "failed to decode base64 data"

/-- The value of a scalar with a tag. -/
def scalarValue (tag : Tag) (s : String) : Reading Document :=
  match tag with
  | .null => .ok .null
  | .bool => boolOf s
  | .int => intOf s
  | .float => floatOf s
  | .text => .ok (.text s)
  | .binary => bytesOf s
  | .timestamp => momentOf s
  | .sequence | .orderedMap | .pairs =>
      refuse "expected a sequence node, but found scalar"
  | .mapping | .set => refuse "expected a mapping node, but found scalar"
  | .merge | .value | .other _ =>
      refuse "could not determine a constructor for the tag"

end GitPersona.Yaml
