/-
What each kind of field accepts. A field takes a value of its own kind
and the values that convert to it without loss: texts that spell a
number or a truth value, whole floats for integers, and numbers zero
and one for truth values.
-/
import GitPersona.Document
import GitPersona.Decimal.Reader
import GitPersona.Settings.Checked
import GitPersona.Text.Blank

namespace GitPersona.Settings

-- ====================================================================== texts

/-- The text that octets spell in UTF-8. -/
def decodeUtf8? (octets : List UInt8) : Option String :=
  String.fromUTF8? ⟨octets.toArray⟩

/-- A text field. -/
def readText : Document → Checked String
  | .text s => .ok s
  | .bytes octets =>
    match decodeUtf8? octets with
    | some s => .ok s
    | none => .wrong .textNotUnicode
  | _ => .wrong .textExpected

/-- A text field that must not be empty. -/
def readNonemptyText (d : Document) : Checked String :=
  let x := readText d
  if x.issues = [] && x.value = "" then .wrong .textEmpty else x

/-- A field that may also be null. -/
def readOption {α : Type} (read : Document → Checked α) :
    Document → Checked (Option α)
  | .null => .ok none
  | d => some <$> read d

/-- A field of texts with names of their own. -/
def readNamed {α : Type} [Inhabited α] (all : List α) (name : α → String)
    (problem : List String → Problem) : Document → Checked α
  | .text s =>
    match all.find? (name · == s) with
    | some a => .ok a
    | none => .wrong (problem (all.map name))
  | _ => .wrong (problem (all.map name))

-- =============================================================== truth values

/-- The truth value that a text spells, letter case ignored. -/
def boolOfText? (s : String) : Option Bool :=
  let word := String.ofList (s.toList.map Char.toLower)
  if ["0", "off", "f", "false", "n", "no"].contains word then some false
  else if ["1", "on", "t", "true", "y", "yes"].contains word then some true
  else none

/-- A text where a truth value is expected. -/
def readBoolText (s : String) : Checked Bool :=
  match boolOfText? s with
  | some b => .ok b
  | none => .wrong .boolUnreadable

/-- Two to the power of 63: integers of 64 bits with a sign are below it. -/
def wordLimit : Int := 9223372036854775808

/-- A whole number where a truth value is expected. -/
def readBoolInt (i : Int) : Checked Bool :=
  if i = 0 then .ok false
  else if i = 1 then .ok true
  else if -wordLimit ≤ i && i < wordLimit then .wrong .boolUnreadable
  else .wrong .boolExpected

/-- The integer that a float is, if it is whole. -/
def wholeValue? (x : Float) : Option Int :=
  match Decimal.Binary.ofFloat x with
  | .finite negative mantissa exponent =>
    let (num, den) := Decimal.fraction mantissa exponent
    if num % den = 0 then some
      (if negative then -(num / den : Nat) else (num / den : Nat)) else none
  | _ => none

/-- A field for a truth value. -/
def readBool : Document → Checked Bool
  | .bool b => .ok b
  | .text s => readBoolText s
  | .bytes octets =>
    match decodeUtf8? octets with
    | some s => readBoolText s
    | none => .wrong .boolExpected
  | .int i => readBoolInt i
  | .float x =>
    match wholeValue? x with
    | some i => readBoolInt i
    | none => .wrong .boolExpected
  | _ => .wrong .boolExpected

-- ===================================================================== floats

/-- A text without its underscores, if each of them stands alone inside it. -/
def withoutUnderscores? (cs : List Char) : Option (List Char) :=
  let runs := cs.splitOn '_'
  if runs.any List.isEmpty then none else some runs.flatten

/-- The float that a text spells: trimmed, or untrimmed with
underscores taken out. -/
def floatOfText? (s : String) : Option Float :=
  match Decimal.float? (Text.trimWhile Text.isWhiteSpace s.toList) with
  | some x => some x
  | none => (withoutUnderscores? s.toList).bind Decimal.float?

/-- A text where a float is expected. -/
def readFloatText (s : String) : Checked Float :=
  match floatOfText? s with
  | some x => .ok x
  | none => .wrong .numberUnreadable

/-- A field for a float. -/
def readFloat : Document → Checked Float
  | .float x => .ok x
  | .int i =>
    let x := Decimal.ofInt i
    if x.isInf then .wrong .numberExpected else .ok x
  | .bool b => .ok (if b then 1.0 else 0.0)
  | .text s => readFloatText s
  | .bytes octets =>
    match decodeUtf8? octets with
    | some s => readFloatText s
    | none => .wrong .numberExpected
  | _ => .wrong .numberExpected

/-- A float from nothing up to one. -/
def readShare (d : Document) : Checked Float :=
  let x := readFloat d
  if x.issues ≠ [] then x
  else if !(x.value ≤ 1.0) then .wrong (.above 1)
  else if !(x.value ≥ 0.0) then .wrong (.below 0)
  else x

/-- A float above nothing. -/
def readPositive (d : Document) : Checked Float :=
  let x := readFloat d
  if x.issues = [] && !(x.value > 0.0) then .wrong (.notAbove 0) else x

-- =================================================================== integers

/-- The integer that digits spell, with single underscores between them. -/
def digitsOfText? (cs : List Char) : Option Nat :=
  (withoutUnderscores? cs).bind fun ds =>
    if ds.isEmpty || !ds.all Char.isDigit then none
      else some (Decimal.digitsValue ds)

/-- A text without a point and the zeros after it, if there is at least
one of them. -/
def withoutZeroPlaces (cs : List Char) : List Char :=
  let rest := Text.dropEndWhile (· == '0') cs
  match rest.reverse with
  | '.' :: before => if rest.length < cs.length then before.reverse else cs
  | _ => cs

/-- The integer that a text spells: trimmed, a sign, digits, perhaps zeros
after a point. -/
def intOfText? (s : String) : Option Int :=
  match withoutZeroPlaces (Text.trimWhile Text.isWhiteSpace s.toList) with
  | '-' :: ds => (digitsOfText? ds).map fun n => -(n : Int)
  | '+' :: ds => (digitsOfText? ds).map Int.ofNat
  | ds => (digitsOfText? ds).map Int.ofNat

/-- The longest text that is read as an integer. -/
def longestIntText : Nat := 4300

/-- A text where an integer is expected. -/
def readIntText (s : String) : Checked Int :=
  if longestIntText < (Text.trimWhile Text.isWhiteSpace s.toList).length then
    .wrong .wholeTooLarge
  else
    match intOfText? s with
    | some i => .ok i
    | none => .wrong .wholeUnreadable

/-- A float where an integer is expected. -/
def readIntFloat (x : Float) : Checked Int :=
  if x.isNaN || x.isInf then .wrong .notFinite
  else
    match wholeValue? x with
    | none => .wrong .wholeFractional
    | some i => if -wordLimit < i && i < wordLimit then .ok i
        else .wrong .wholeTooLarge

/-- A field for an integer. -/
def readInt : Document → Checked Int
  | .int i => .ok i
  | .bool b => .ok (if b then 1 else 0)
  | .float x => readIntFloat x
  | .text s => readIntText s
  | .bytes octets =>
    match decodeUtf8? octets with
    | some s => readIntText s
    | none => .wrong .wholeExpected
  | _ => .wrong .wholeExpected

/-- An integer from one. -/
def readCount (d : Document) : Checked Int :=
  let x := readInt d
  if x.issues = [] && x.value < 1 then .wrong (.below 1) else x

-- ====================================================================== lists

/-- A list field. -/
def readList {α : Type} (read : Document → Checked α) :
    Document → Checked (List α)
  | .list items => Checked.each read 0 items
  | .set items => Checked.each read 0 items
  | _ => .wrong .listExpected

end GitPersona.Settings
