/-
Reading JSON texts. Besides the standard's values, the names `NaN`,
`Infinity` and `-Infinity` are read as numbers. A number written with a
point or an exponent is a float, any other an integer. Of several pairs
for a key the last one counts.
-/
import GitPersona.Document
import GitPersona.Decimal.Reader

namespace GitPersona.Json

-- ==================================================================== strings

/-- Drops the blanks that may stand between tokens. -/
def skipBlanks (cs : List Char) : List Char :=
  cs.dropWhile fun c => c == ' ' || c == '\t' || c == '\n' || c == '\r'

/-- The number that four hexadecimal digits spell, and what follows them. -/
def hex4? : List Char → Option (Nat × List Char)
  | a :: b :: c :: d :: r =>
    if [a, b, c, d].all Decimal.isHexDigit then
      some (Decimal.baseValue 16 [a, b, c, d], r)
    else none
  | _ => none

/-- The character of an escape that is a single letter. -/
def escaped? (c : Char) : Option Char :=
  if c = '"' || c = '\\' || c = '/' then some c
  else if c = 'b' then some (Char.ofNat 0x08)
  else if c = 'f' then some (Char.ofNat 0x0C)
  else if c = 'n' then some '\n'
  else if c = 'r' then some '\r'
  else if c = 't' then some '\t'
  else none

/-- The character of one UTF-16 unit; half of a pair becomes the
replacement character. -/
def unitChar (n : Nat) : Char :=
  if 0xD800 ≤ n ∧ n < 0xE000 then Char.ofNat 0xFFFD else Char.ofNat n

/-- The first UTF-16 unit of a pair. -/
def isLeading (n : Nat) : Bool :=
  0xD800 ≤ n && n < 0xDC00

/-- The second UTF-16 unit of a pair. -/
def isTrailing (n : Nat) : Bool :=
  0xDC00 ≤ n && n < 0xE000

/-- The character that an escape of a UTF-16 unit spells, or two of them in a
row, and what follows. -/
def unicode? (r : List Char) : Option (Char × List Char) :=
  match hex4? r with
  | none => none
  | some (n, rest) =>
    match rest with
    | '\\' :: 'u' :: r' =>
      match hex4? r' with
      | some (m, rest') =>
        if isLeading n && isTrailing m then
          some (Char.ofNat (0x10000 + (n - 0xD800) * 0x400 + (m - 0xDC00)),
            rest')
        else some (unitChar n, rest)
      | none => some (unitChar n, rest)
    | _ => some (unitChar n, rest)

/-- The rest of a string literal after its opening quote, at most `fuel`
characters of it, and what follows its closing quote. -/
def literal? : Nat → List Char → Option (List Char × List Char)
  | 0, _ => none
  | _ + 1, [] => none
  | _ + 1, '"' :: r => some ([], r)
  | fuel + 1, '\\' :: 'u' :: r => do
    let (c, rest) ← unicode? r
    let (cs, rest') ← literal? fuel rest
    return (c :: cs, rest')
  | fuel + 1, '\\' :: e :: r => do
    let c ← escaped? e
    let (cs, rest) ← literal? fuel r
    return (c :: cs, rest)
  | fuel + 1, c :: r =>
    if c = '\\' || c.toNat < 0x20 then none
    else do
      let (cs, rest) ← literal? fuel r
      return (c :: cs, rest)

-- ==================================================================== numbers

/-- The digits at the start of a text, and what follows. -/
def digitRun (cs : List Char) : List Char × List Char :=
  (cs.takeWhile Char.isDigit, cs.dropWhile Char.isDigit)

/-- The digits after a point, and what follows: nothing is taken unless a digit
follows the point. -/
def fractionRun : List Char → List Char × List Char
  | '.' :: r => if (digitRun r).1.isEmpty then ([], '.' :: r) else digitRun r
  | r => ([], r)

/-- The value of an exponent, and what follows: nothing is taken unless it
has a digit. -/
def exponentRun (cs : List Char) : Option Int × List Char :=
  match cs with
  | e :: r =>
    if e == 'e' || e == 'E' then
      let (negative, r') :=
        match r with
        | '-' :: r' => (true, r')
        | '+' :: r' => (false, r')
        | r' => (false, r')
      let (ds, rest) := digitRun r'
      let n : Int := Decimal.digitsValue ds
      if ds.isEmpty then (none, cs)
        else (some (if negative then -n else n), rest)
    else (none, cs)
  | [] => (none, [])

/-- An unsigned number at the start of a text, and what follows. -/
def unsigned? (negative : Bool) (cs : List Char) :
    Option (Document × List Char) :=
  let (whole, afterWhole) :=
    match cs with
    | '0' :: r => (['0'], r)
    | r => digitRun r
  if whole.isEmpty then none
  else
    let (part, afterPart) := fractionRun afterWhole
    let (exponent, rest) := exponentRun afterPart
    if part.isEmpty && exponent.isNone then
      let n : Int := Decimal.digitsValue whole
      some (.int (if negative then -n else n), rest)
    else
      let x := Decimal.ofScientific (Decimal.digitsValue (whole ++ part))
        (exponent.getD 0 - part.length)
      some (.float (if negative then -x else x), rest)

-- ===================================================================== values

/-- What follows a word, if the text starts with it. -/
def afterWord? (word : String) (cs : List Char) : Option (List Char) :=
  if word.toList.isPrefixOf cs then some (cs.drop word.toList.length) else none

/-- The values that are written as words. -/
def words : List (String × Document) :=
  [("null", .null), ("true", .bool true), ("false", .bool false),
    ("NaN", .float (0.0 / 0.0)), ("Infinity", .float (1.0 / 0.0)),
    ("-Infinity", .float (-1.0 / 0.0))]

/-- The word value at the start of a text, and what follows. -/
def word? (cs : List Char) : Option (Document × List Char) :=
  words.findSome? fun w => (afterWord? w.1 cs).map fun rest => (w.2, rest)

mutual

/-- The value at the start of a text, and what follows. -/
def value? : Nat → List Char → Option (Document × List Char)
  | 0, _ => none
  | fuel + 1, cs =>
    match cs with
    | '"' :: r => (literal? (r.length + 1) r).map fun (s, rest) =>
        (.text (String.ofList s), rest)
    | '[' :: r =>
      match skipBlanks r with
      | ']' :: rest => some (.list [], rest)
      | r' => (items? fuel r').map fun (xs, rest) => (.list xs, rest)
    | '{' :: r =>
      match skipBlanks r with
      | '}' :: rest => some (.mapping [], rest)
      | r' => (pairs? fuel r').map fun (es, rest) =>
          (.mapping (Document.ofPairs es), rest)
    | cs =>
      match word? cs with
      | some result => some result
      | none =>
        match cs with
        | '-' :: r => unsigned? true r
        | r => unsigned? false r

/-- The items of a list up to its closing bracket, at least one. -/
def items? : Nat → List Char → Option (List Document × List Char)
  | 0, _ => none
  | fuel + 1, cs => do
    let (x, rest) ← value? fuel cs
    match skipBlanks rest with
    | ',' :: r =>
      let (xs, rest') ← items? fuel (skipBlanks r)
      return (x :: xs, rest')
    | ']' :: r => return ([x], r)
    | _ => none

/-- The pairs of an object up to its closing brace, at least one. -/
def pairs? : Nat → List Char → Option (List (Document × Document) × List Char)
  | 0, _ => none
  | fuel + 1, cs =>
    match cs with
    | '"' :: r => do
      let (k, afterKey) ← literal? (r.length + 1) r
      match skipBlanks afterKey with
      | ':' :: r' =>
        let (v, rest) ← value? fuel (skipBlanks r')
        let entry := (Document.text (String.ofList k), v)
        match skipBlanks rest with
        | ',' :: r'' =>
          let (es, rest') ← pairs? fuel (skipBlanks r'')
          return (entry :: es, rest')
        | '}' :: r'' => return ([entry], r'')
        | _ => none
      | _ => none
    | _ => none

end

/-- The value that a JSON text holds. -/
def read? (s : String) : Option Document :=
  let cs := skipBlanks s.toList
  match value? (cs.length + 1) cs with
  | some (v, rest) => if (skipBlanks rest).isEmpty then some v else none
  | none => none

end GitPersona.Json
