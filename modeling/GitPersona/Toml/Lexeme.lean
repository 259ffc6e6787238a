/-
The parts of a TOML text that hold no other values: keys, strings,
numbers, dates and times. Each reader starts where its part starts, and
gives the part with what follows it.
-/
import GitPersona.Reading
import GitPersona.Calendar
import GitPersona.Document
import GitPersona.Decimal.Reader

namespace GitPersona.Toml

open Reading (refuse)

-- ================================================================ characters

/-- A space or a tab. -/
def isGap (c : Char) : Bool :=
  c == ' ' || c == '\t'

/-- A control character other than the tab. -/
def isControl (c : Char) : Bool :=
  (c.toNat < 0x20 && c != '\t') || c.toNat == 0x7F

/-- A character of a key that is not in quotes. -/
def isBareKeyChar (c : Char) : Bool :=
  c.isAlphanum || c == '-' || c == '_'

/-- What follows the spaces and tabs. -/
def skipGaps (cs : List Char) : List Char :=
  cs.dropWhile isGap

/-- What follows a comment, if one starts here: the end of the line. -/
def skipComment (cs : List Char) : Reading (List Char) :=
  match cs with
  | '#' :: r =>
    if (r.takeWhile (· != '\n')).any isControl then
      refuse "found invalid character"
    else .ok (r.dropWhile (· != '\n'))
  | _ => .ok cs

/-- What follows blanks, line breaks and comments, of which there
may be so many. -/
def skipLines : Nat → List Char → Reading (List Char)
  | 0, cs => .ok cs
  | fuel + 1, cs => do
    match cs.dropWhile fun c => isGap c || c == '\n' with
    | '#' :: r => skipLines fuel (← skipComment ('#' :: r))
    | r => return r

-- =================================================================== strings

/-- The character of an escape that is a single letter. -/
def escaped? (c : Char) : Option Char :=
  if c = '"' || c = '\\' then some c
  else if c = 'b' then some (Char.ofNat 0x08)
  else if c = 'f' then some (Char.ofNat 0x0C)
  else if c = 'n' then some '\n'
  else if c = 'r' then some '\r'
  else if c = 't' then some '\t'
  else none

/-- The character that so many hexadecimal digits spell, and what follows. -/
def hexChar (count : Nat) (cs : List Char) : Reading (Char × List Char) :=
  let ds := cs.take count
  let n := Decimal.baseValue 16 ds
  if ds.length != count || !ds.all Decimal.isHexDigit then
    refuse "invalid hex value"
  else if 0x110000 ≤ n || (0xD800 ≤ n && n < 0xE000) then
    refuse "escaped character is not a Unicode scalar value"
  else .ok (Char.ofNat n, cs.drop count)

/-- What follows a backslash at the end of a line: the next line that is not
blank, from its first character. -/
def afterLineEnd (cs : List Char) : Reading (List Char) :=
  match skipGaps cs with
  | '\n' :: r => .ok (r.dropWhile fun c => isGap c || c == '\n')
  | [] => .ok []
  | _ => refuse "unescaped backslash in a string"

/-- What an escape stands for, after its backslash, and what follows. -/
def escape (multiline : Bool) (cs : List Char) :
    Reading (List Char × List Char) :=
  match cs with
  | [] => refuse "unescaped backslash in a string"
  | c :: r =>
    if multiline && (isGap c || c == '\n') then do
      return ([], ← afterLineEnd cs)
    else if c = 'u' then do
      let (e, rest) ← hexChar 4 r
      return ([e], rest)
    else if c = 'U' then do
      let (e, rest) ← hexChar 8 r
      return ([e], rest)
    else
      match escaped? c with
      | some e => .ok ([e], r)
      | none => refuse "unescaped backslash in a string"

/-- The rest of a string in double quotes, and what follows its end. -/
def basicFrom (multiline : Bool) :
    Nat → List Char → Reading (List Char × List Char)
  | 0, _ => refuse "unterminated string"
  | _ + 1, [] => refuse "unterminated string"
  | fuel + 1, '\\' :: r => do
    let (part, rest) ← escape multiline r
    let (more, rest) ← basicFrom multiline fuel rest
    return (part ++ more, rest)
  | fuel + 1, '"' :: r =>
    if !multiline then .ok ([], r)
    else
      match r with
      | '"' :: '"' :: r => .ok ([], r)
      | r => do
        let (more, rest) ← basicFrom multiline fuel r
        return ('"' :: more, rest)
  | fuel + 1, c :: r =>
    if isControl c && !(multiline && c == '\n') then refuse "illegal character"
    else do
      let (more, rest) ← basicFrom multiline fuel r
      return (c :: more, rest)

/-- The rest of a string between three single quotes, and what
follows its end. -/
def longLiteralFrom : List Char → Reading (List Char × List Char)
  | '\'' :: '\'' :: '\'' :: r => .ok ([], r)
  | c :: r =>
    if isControl c && c != '\n' then refuse "found invalid character"
    else do
      let (more, rest) ← longLiteralFrom r
      return (c :: more, rest)
  | [] => refuse "unterminated string"

/-- A string on one line, after its opening quote. -/
def shortString (quote : Char) (cs : List Char) :
    Reading (List Char × List Char) :=
  if quote = '"' then basicFrom false (cs.length + 1) cs
  else
    let body := cs.takeWhile (· != '\'')
    match cs.dropWhile (· != '\'') with
    | [] => refuse "unterminated string"
    | _ :: rest => if body.any isControl then refuse "found invalid character"
        else .ok (body, rest)

/-- A string between three quotes, after the opening ones. A line break right
at its start does not count; up to two more quotes at its end do. -/
def longString (quote : Char) (cs : List Char) :
    Reading (List Char × List Char) := do
  let cs :=
    match cs with
    | '\n' :: r => r
    | r => r
  let (body, rest) ←
    if quote = '"' then basicFrom true (cs.length + 1) cs
      else longLiteralFrom cs
  let extra := (rest.take 2).takeWhile (· == quote)
  return (body ++ extra, rest.drop extra.length)

/-- A string, after its first quote. -/
def anyString (quote : Char) (cs : List Char) :
    Reading (List Char × List Char) :=
  match cs with
  | a :: b :: r =>
    if a = quote && b = quote then longString quote r else shortString quote cs
  | _ => shortString quote cs

-- ====================================================================== keys

/-- The way to a value: a key, and keys below it. -/
abbrev Way := List String

/-- One part of a key, and what follows. -/
def keyPart (cs : List Char) : Reading (String × List Char) :=
  match cs with
  | [] => refuse "invalid initial character for a key part"
  | c :: r =>
    if isBareKeyChar c then
      .ok (String.ofList (cs.takeWhile isBareKeyChar),
        cs.dropWhile isBareKeyChar)
    else if c = '\'' || c = '"' then do
      let (part, rest) ← shortString c r
      return (String.ofList part, rest)
    else refuse "invalid initial character for a key part"

/-- A key with dots between its parts, and what follows it and the
blanks after it. -/
def way : Nat → List Char → Reading (Way × List Char)
  | 0, _ => refuse "nested too deeply"
  | fuel + 1, cs => do
    let (part, rest) ← keyPart cs
    match skipGaps rest with
    | '.' :: r =>
      let (parts, rest) ← way fuel (skipGaps r)
      return (part :: parts, rest)
    | r => return ([part], r)

-- =================================================================== numbers

/-- Digits of a class with single underscores between them, without those, and
what follows. -/
def digitRun (p : Char → Bool) : List Char → List Char × List Char
  | '_' :: d :: r =>
    if p d then
      let (ds, rest) := digitRun p r
      (d :: ds, rest)
    else ([], '_' :: d :: r)
  | d :: r =>
    if p d then
      let (ds, rest) := digitRun p r
      (d :: ds, rest)
    else ([], d :: r)
  | [] => ([], [])

/-- A run of digits that starts with one, and what follows. -/
def digits? (p : Char → Bool) (cs : List Char) :
    Option (List Char × List Char) :=
  if cs.head?.any p then some (digitRun p cs) else none

/-- An integer in a base that its letter after a zero names, and
what follows. -/
def based? (cs : List Char) : Option (Document × List Char) :=
  let number (base : Nat) (p : Char → Bool) (r : List Char) :
      Option (Document × List Char) :=
    (digits? p r).map fun (ds, rest) =>
      (.int (Decimal.baseValue base ds), rest)
  match cs with
  | '0' :: 'x' :: r => number 16 Decimal.isHexDigit r
  | '0' :: 'b' :: r => number 2 (fun c => c == '0' || c == '1') r
  | '0' :: 'o' :: r => number 8 (fun c => '0' ≤ c && c ≤ '7') r
  | _ => none

/-- The digits before a point: a zero, or digits that do not start with one. -/
def whole? (cs : List Char) : Option (List Char × List Char) :=
  match cs with
  | '0' :: r => some (['0'], r)
  | r => digits? Char.isDigit r

/-- The digits after a point with the point, and what follows: nothing is taken
unless a digit follows the point. -/
def fraction (cs : List Char) : List Char × List Char :=
  match cs with
  | '.' :: r =>
    match digits? Char.isDigit r with
    | some (ds, rest) => ('.' :: ds, rest)
    | none => ([], cs)
  | _ => ([], cs)

/-- An exponent, and what follows: nothing is taken unless it has a digit. -/
def exponent (cs : List Char) : List Char × List Char :=
  match cs with
  | e :: r =>
    if e == 'e' || e == 'E' then
      let (sign, r') :=
        match r with
        | '-' :: r' => (['-'], r')
        | '+' :: r' => ([], r')
        | r' => ([], r')
      match digits? Char.isDigit r' with
      | some (ds, rest) => (e :: sign ++ ds, rest)
      | none => ([], cs)
    else ([], cs)
  | [] => ([], [])

/-- The longest decimal integer that is read. -/
def longestDecimal : Nat := 4300

/-- A decimal number after its sign, and what follows. -/
def decimal? (negative : Bool) (cs : List Char) :
    Option (Reading Document × List Char) := do
  let (ds, r) ← whole? cs
  let (part, r) := fraction r
  let (power, rest) := exponent r
  if part.isEmpty && power.isEmpty then
    if longestDecimal < ds.length then
      return (Reading.valueless
        "Exceeds the limit (4300 digits) for integer string conversion",
        rest)
    let n : Int := Decimal.digitsValue ds
    return (.ok (.int (if negative then -n else n)), rest)
  else
    let x ← Decimal.float? (ds ++ part ++ power)
    return (.ok (.float (if negative then -x else x)), rest)

/-- A sign, and what follows. -/
def sign (cs : List Char) : Bool × List Char :=
  match cs with
  | '-' :: r => (true, r)
  | '+' :: r => (false, r)
  | r => (false, r)

/-- An infinity or no number, and what follows. -/
def specialFloat? (cs : List Char) : Option (Document × List Char) :=
  let (negative, r) := sign cs
  match r with
  | 'i' :: 'n' :: 'f' :: rest =>
      some (.float (if negative then -1.0 / 0.0 else 1.0 / 0.0), rest)
  | 'n' :: 'a' :: 'n' :: rest => some (.float (0.0 / 0.0), rest)
  | _ => none

/-- A number, and what follows. -/
def number? (cs : List Char) : Option (Reading Document × List Char) :=
  match based? cs with
  | some (d, rest) => some (.ok d, rest)
  | none =>
    let (negative, r) := sign cs
    match decimal? negative r with
    | some result => some result
    | none => (specialFloat? cs).map fun (d, rest) => (.ok d, rest)

-- ==================================================================== moments

/-- Exactly so many digits that make a number in bounds, and what follows. -/
def field? (count least most : Nat) (cs : List Char) :
    Option (Nat × List Char) :=
  let ds := cs.take count
  let n := Decimal.digitsValue ds
  if ds.length = count && ds.all Char.isDigit && least ≤ n && n ≤ most then
    some (n, cs.drop count)
  else none

/-- What follows a character, if the text starts with it. -/
def after? (c : Char) : List Char → Option (List Char)
  | d :: r => if c = d then some r else none
  | [] => none

/-- What follows the digits of a fraction of a second, if there are any. -/
def afterFraction (cs : List Char) : List Char :=
  match cs with
  | '.' :: d :: r => if d.isDigit then r.dropWhile Char.isDigit else cs
  | _ => cs

/-- What follows a time of day. -/
def afterTime? (cs : List Char) : Option (List Char) := do
  let (_, r) ← field? 2 0 23 cs
  let (_, r) ← field? 2 0 59 (← after? ':' r)
  let (_, r) ← field? 2 0 59 (← after? ':' r)
  return afterFraction r

/-- What follows an offset from universal time, if there is one. -/
def afterOffset (cs : List Char) : List Char :=
  let numeric (r : List Char) : Option (List Char) := do
    let (_, r) ← field? 2 0 23 r
    let (_, r) ← field? 2 0 59 (← after? ':' r)
    return r
  match cs with
  | 'Z' :: r => r
  | 'z' :: r => r
  | '+' :: r => (numeric r).getD cs
  | '-' :: r => (numeric r).getD cs
  | _ => cs

/-- What follows a time of day with its offset after a date, if
they are there. -/
def afterDateTime? (cs : List Char) : Option (List Char) :=
  match cs with
  | t :: r =>
    if t == 'T' || t == 't' || t == ' ' then (afterTime? r).map afterOffset
      else none
  | [] => none

/-- The start of a text, up to what follows it. -/
def textBefore (cs rest : List Char) : String :=
  String.ofList (cs.take (cs.length - rest.length))

/-- A date, alone or with a time, and what follows. -/
def date? (cs : List Char) : Option (Reading Document × List Char) := do
  let (year, r) ← field? 4 0 9999 cs
  let (month, r) ← field? 2 1 12 (← after? '-' r)
  let (day, r) ← field? 2 1 31 (← after? '-' r)
  let (kind, rest) :=
    match afterDateTime? r with
    | some rest => (Moment.dateTime, rest)
    | none => (Moment.date, r)
  match Calendar.dateProblem? year month day with
  | some _ => return (refuse "invalid date or datetime", rest)
  | none => return (.ok (.moment kind (textBefore cs rest)), rest)

/-- A time of day, and what follows. -/
def time? (cs : List Char) : Option (Document × List Char) :=
  (afterTime? cs).map fun rest => (.moment .time (textBefore cs rest), rest)

end GitPersona.Toml
