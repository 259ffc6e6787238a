/-
The parts of a YAML text that take more than one character to read:
scalars in their three styles, names, tags and directives. Each reader
starts where its part starts, and gives the part with the place after
it.
-/
import GitPersona.Yaml.Cursor
import GitPersona.Yaml.Token
import GitPersona.Decimal.Reader

namespace GitPersona.Yaml

open Reading (refuse)

-- ============================================================= plain scalars

/-- A character that structures flow collections. -/
def isFlowMark (c : Char) : Bool :=
  c == ',' || c == '[' || c == ']' || c == '{' || c == '}'

/-- No stretch of a plain scalar goes on here. -/
def endsStretch (inFlow : Bool) : List Char → Bool
  | [] => true
  | c :: r =>
    isGap c || isBreak c
      || (c == ':' && (isBlankOrEnd r.head?
        || (inFlow && r.head?.any isFlowMark)))
      || (inFlow && (isFlowMark c || c == '?'))

/-- The stretch of a plain scalar that starts here: what holds no blank. -/
def stretch (inFlow : Bool) : List Char → List Char
  | [] => []
  | c :: r => if endsStretch inFlow (c :: r) then [] else c :: stretch inFlow r

/-- What a line break and the empty lines after it stand for: a space, if there
are none of the latter. -/
def folded (first more : List Char) : List Char :=
  if first != ['\n'] then first ++ more else if more.isEmpty then [' ']
    else more

/-- The empty lines after a line break, and the place where a text goes on, if
it is not the mark of a document. -/
def emptyLines : Nat → Cursor → Option (List Char) × Cursor
  | 0, k => (some [], k)
  | fuel + 1, k =>
    if k.sees ' ' then emptyLines fuel k.next
    else if isBreakOrEnd k.peek && k.peek.isSome then
      let (b, k') := k.lineBreak
      if k'.atDocumentMark then (none, k')
      else
        let (more, k'') := emptyLines fuel k'
        (more.map (b ++ ·), k'')
    else (some [], k)

/-- What stands between two stretches, nothing if the scalar ends, the place
after it, and whether it goes on to another line. -/
def plainGap (k : Cursor) : List Char × Cursor × Bool :=
  let (blanks, k) := k.run (· == ' ')
  if isBreakOrEnd k.peek && k.peek.isSome then
    let (b, k) := k.lineBreak
    if k.atDocumentMark then ([], k, true)
    else
      match emptyLines (k.rest.length + 1) k with
      | (some more, k) => (folded b more, k, true)
      | (none, k) => ([], k, true)
  else (blanks, k, false)

/-- The rest of a plain scalar, given what stands before its next stretch and
whether that goes on to another line. -/
def plainFrom (inFlow : Bool) (indent : Int) :
    Nat → List Char → Bool → Cursor → List Char × Cursor × Bool
  | 0, _, newLine, k => ([], k, newLine)
  | fuel + 1, gap, newLine, k =>
    let part := stretch inFlow k.rest
    if k.sees '#' || part.isEmpty then ([], k, newLine)
    else
      let (gap', k', newLine') := plainGap (k.skip part.length)
      if gap'.isEmpty || k'.sees '#' || (!inFlow && k'.column < indent) then
        (gap ++ part, k', newLine')
      else
        let (more, k'', newLine'') :=
          plainFrom inFlow indent fuel gap' newLine' k'
        (gap ++ part ++ more, k'', newLine'')

/-- A plain scalar inside a block of this indentation, the place after it, and
whether that is on a new line. -/
def plain (inFlow : Bool) (indent : Int) (k : Cursor) :
    List Char × Cursor × Bool :=
  plainFrom inFlow (indent + 1) (k.rest.length + 1) [] false k

-- ============================================================ quoted scalars

/-- The empty lines inside a quoted scalar, and the place where it goes on. -/
def quotedLines : Nat → Cursor → Reading (List Char × Cursor)
  | 0, _ => refuse "found unexpected end of stream"
  | fuel + 1, k =>
    if k.atDocumentMark then refuse "found unexpected document separator"
    else
      let k := k.skipRun isGap
      if isBreakOrEnd k.peek && k.peek.isSome then do
        let (b, k) := k.lineBreak
        let (more, k) ← quotedLines fuel k
        return (b ++ more, k)
      else return ([], k)

/-- The character of an escape that is a single character. -/
def escaped? (c : Char) : Option Char :=
  if c = '0' then some (Char.ofNat 0x00)
  else if c = 'a' then some (Char.ofNat 0x07)
  else if c = 'b' then some (Char.ofNat 0x08)
  else if c = 't' || c = '\t' then some '\t'
  else if c = 'n' then some '\n'
  else if c = 'v' then some (Char.ofNat 0x0B)
  else if c = 'f' then some (Char.ofNat 0x0C)
  else if c = 'r' then some '\r'
  else if c = 'e' then some (Char.ofNat 0x1B)
  else if c = ' ' || c = '"' || c = '\\' || c = '/' then some c
  else if c = 'N' then some (Char.ofNat 0x85)
  else if c = '_' then some (Char.ofNat 0xA0)
  else if c = 'L' then some (Char.ofNat 0x2028)
  else if c = 'P' then some (Char.ofNat 0x2029)
  else none

/-- How many hexadecimal digits follow the letter of an escape. -/
def escapeLength? (c : Char) : Option Nat :=
  if c = 'x' then some 2 else if c = 'u' then some 4
    else if c = 'U' then some 8 else none

/-- The number that so many hexadecimal digits spell here, and the
place after them. -/
def hexNumber (count : Nat) (k : Cursor) : Reading (Nat × Cursor) :=
  let ds := k.rest.take count
  if ds.length = count && ds.all Decimal.isHexDigit then
    .ok (Decimal.baseValue 16 ds, k.skip count)
  else refuse "expected escape sequence of hexadecimal digits"

/-- The character of a code point; half of a pair becomes the
replacement character. -/
def codePoint (n : Nat) : Reading Char :=
  if 0x110000 ≤ n then Reading.valueless "chr() arg not in range(0x110000)"
  else if 0xD800 ≤ n && n < 0xE000 then .ok (Char.ofNat 0xFFFD)
  else .ok (Char.ofNat n)

/-- What an escape stands for, after its backslash, and the place after it. -/
def escape (k : Cursor) : Reading (List Char × Cursor) :=
  match k.peek with
  | none => refuse "found unknown escape character"
  | some c =>
    match escaped? c, escapeLength? c with
    | some e, _ => .ok ([e], k.next)
    | none, some count => do
      let (n, k) ← hexNumber count k.next
      return ([← codePoint n], k)
    | none, none =>
      if isBreak c then quotedLines (k.rest.length + 1) k.lineBreak.2
      else refuse "found unknown escape character"

/-- The rest of a quoted scalar after its opening quote, and the place after
its closing one. -/
def quotedFrom (quote : Char) : Nat → Cursor → Reading (List Char × Cursor)
  | 0, _ => refuse "found unexpected end of stream"
  | fuel + 1, k =>
    match k.peek with
    | none => refuse "found unexpected end of stream"
    | some c =>
      if c = quote then
        if quote = '\'' && k.peekAt 1 == some '\'' then do
          let (more, k) ← quotedFrom quote fuel (k.skip 2)
          return ('\'' :: more, k)
        else return ([], k.next)
      else if c = '\\' && quote = '"' then do
        let (part, k) ← escape k.next
        let (more, k) ← quotedFrom quote fuel k
        return (part ++ more, k)
      else if isGap c || isBreak c then do
        let (blanks, k) := k.run isGap
        if isBreakOrEnd k.peek then
          let (b, k) := k.lineBreak
          let (lines, k) ← quotedLines fuel k
          let (more, k) ← quotedFrom quote fuel k
          return (folded b lines ++ more, k)
        else
          let (more, k) ← quotedFrom quote fuel k
          return (blanks ++ more, k)
      else do
        let (more, k) ← quotedFrom quote fuel k.next
        return (c :: more, k)

/-- A quoted scalar. -/
def quoted (quote : Char) (k : Cursor) : Reading (List Char × Cursor) :=
  quotedFrom quote (k.rest.length + 1) k.next

-- ============================================================= block scalars

/-- What becomes of the line breaks at the end of a block scalar. -/
inductive Chomping
  | strip
  | clip
  | keep
  deriving DecidableEq, Repr

/-- The sign that sets the chomping. -/
def chomping? (k : Cursor) : Option Chomping :=
  if k.sees '+' then some .keep else if k.sees '-' then some .strip else none

/-- The digit that sets the indentation. -/
def increment? (k : Cursor) : Option Nat :=
  match k.peek with
  | some c => if c.isDigit then some (c.toNat - 0x30) else none
  | none => none

/-- The chomping and the indentation that the head of a block scalar sets, in
either order. -/
def blockHead (k : Cursor) : Chomping × Option Nat × Cursor :=
  match chomping? k, increment? k with
  | some chomping, _ =>
    match increment? k.next with
    | some n => (chomping, some n, k.skip 2)
    | none => (chomping, none, k.next)
  | none, some n =>
    match chomping? k.next with
    | some chomping => (chomping, some n, k.skip 2)
    | none => (.clip, some n, k.next)
  | none, none => (.clip, none, k)

/-- The empty lines before the first line of a block scalar, and the greatest
number of spaces that any of them starts with, its first line included. -/
def leadingLines : Nat → Nat → Cursor → List Char × Nat × Cursor
  | 0, widest, k => ([], widest, k)
  | fuel + 1, widest, k =>
    if k.sees ' ' then leadingLines fuel (max widest k.next.column) k.next
    else if isBreakOrEnd k.peek && k.peek.isSome then
      let (b, k) := k.lineBreak
      let (more, widest, k) := leadingLines fuel widest k
      (b ++ more, widest, k)
    else ([], widest, k)

/-- The place after the spaces up to a column. -/
def skipIndent (indent : Nat) (k : Cursor) : Cursor :=
  k.skip (min (indent - k.column) (k.rest.takeWhile (· == ' ')).length)

/-- The empty lines inside a block scalar, and the place after the indentation
that follows. -/
def blockLines (indent : Nat) : Nat → Cursor → List Char × Cursor
  | 0, k => ([], k)
  | fuel + 1, k =>
    let k := skipIndent indent k
    if isBreakOrEnd k.peek && k.peek.isSome then
      let (b, k) := k.lineBreak
      let (more, k) := blockLines indent fuel k
      (b ++ more, k)
    else ([], k)

/-- A line of a block scalar starts here. -/
def atBlockLine (indent : Nat) (k : Cursor) : Bool :=
  k.column == indent && k.peek.isSome

/-- What stands between two lines of a block scalar besides the empty ones:
when lines are folded, the break between two that start with text becomes a
space, or nothing if empty lines follow. -/
def blockJoint (fold : Bool) (first second : Option Char)
    (b empty : List Char) : List Char :=
  if fold && b == ['\n'] && !first.any isGap && !second.any isGap then
    if empty.isEmpty then [' '] else []
  else b

/-- The lines of a block scalar from the one that starts here, with the empty
ones before it: their text, the break at the end of the last one, the empty
lines after that, and the place after those. -/
def blockText (fold : Bool) (indent : Nat) :
    Nat → List Char → Cursor → List Char × List Char × List Char × Cursor
  | 0, empty, k => ([], [], empty, k)
  | fuel + 1, empty, k =>
    let (line, k') := k.run (fun c => !isBreak c)
    let (b, k') := k'.lineBreak
    let (empty', k') := blockLines indent (k'.rest.length + 1) k'
    if atBlockLine indent k' then
      let (more, last, trailing, k'') := blockText fold indent fuel empty' k'
      (empty ++ line ++ blockJoint fold k.peek k'.peek b empty' ++ more, last,
        trailing, k'')
    else (empty ++ line, b, empty', k')

/-- A literal or folded scalar inside a block of this indentation. -/
def blockScalar (fold : Bool) (indent : Int) (k : Cursor) :
    Reading (List Char × Cursor) := do
  let (chomping, increment, k) := blockHead k.next
  if increment = some 0 then
    refuse "expected indentation indicator in the range 1-9, but found 0"
  if !isSpaceOrEnd k.peek then
    refuse "expected chomping or indentation indicators"
  let k ← k.endLine
  let least := max 1 (indent + 1).toNat
  let (empty, width, k) :=
    match increment with
    | some n =>
      let (empty, k) := blockLines (least + n - 1) (k.rest.length + 1) k
      (empty, least + n - 1, k)
    | none =>
      let (empty, widest, k) := leadingLines (k.rest.length + 1) 0 k
      (empty, max least widest, k)
  let (body, last, trailing, k) :=
    if atBlockLine width k then
      blockText fold width (k.rest.length + 1) empty k
    else ([], [], empty, k)
  return match chomping with
    | .strip => (body, k)
    | .clip => (body ++ last, k)
    | .keep => (body ++ last ++ trailing, k)

-- ============================================================= names and tags

/-- A character that may follow the name of an anchor. -/
def endsAnchor : Option Char → Bool
  | none => true
  | some c => isGap c || isBreak c || "?:,]\x7d%@".contains c
      || c.toNat == 0x60

/-- The name of an anchor or alias, after its sign. -/
def anchorName (k : Cursor) : Reading (String × Cursor) :=
  let (name, k) := k.run isNameChar
  if name.isEmpty || !endsAnchor k.peek then
    refuse "expected alphabetic or numeric character"
  else .ok (String.ofList name, k)

/-- A character of a tag besides the escapes. -/
def isTagChar (c : Char) : Bool :=
  c.isAlphanum || "-;/?:@&=+$,_.!~*'()[]".contains c

/-- The octets that escapes with percent signs spell, and the
place after them. -/
def percentOctets : Nat → Cursor → Reading (List UInt8 × Cursor)
  | 0, k => .ok ([], k)
  | fuel + 1, k =>
    if k.sees '%' then do
      let (n, k) ← hexNumber 2 k.next
      let (more, k) ← percentOctets fuel k
      return (UInt8.ofNat n :: more, k)
    else return ([], k)

/-- The text of a tag, and the place after it. -/
def tagChars : Nat → Cursor → Reading (List Char × Cursor)
  | 0, k => .ok ([], k)
  | fuel + 1, k =>
    if k.sees '%' then do
      let (octets, k) ← percentOctets (k.rest.length + 1) k
      match String.fromUTF8? ⟨octets.toArray⟩ with
      | none => refuse "expected URI escape sequence"
      | some s =>
        let (more, k) ← tagChars fuel k
        return (s.toList ++ more, k)
    else do
      let (part, k) := k.run isTagChar
      if part.isEmpty then return ([], k)
      let (more, k) ← tagChars fuel k
      return (part ++ more, k)

/-- The text of a tag, which has at least one character. -/
def tagText (k : Cursor) : Reading (String × Cursor) := do
  let (cs, k) ← tagChars (k.rest.length + 1) k
  if cs.isEmpty then refuse "expected URI" else return (String.ofList cs, k)

/-- The handle of a tag: one exclamation mark, or a name between two. -/
def tagHandle (k : Cursor) : Reading (String × Cursor) :=
  if !k.sees '!' then refuse "expected '!'"
  else if k.peekAt 1 == some ' ' then .ok ("!", k.next)
  else
    let (name, k) := k.next.run isNameChar
    if k.sees '!' then .ok (String.ofList ('!' :: name ++ ['!']), k.next)
    else refuse "expected '!'"

/-- The characters of a tag before the first blank hold another
exclamation mark. -/
def hasHandle (k : Cursor) : Bool :=
  (k.next.rest.takeWhile fun c => !(c == ' ' || isBreak c)).contains '!'

/-- A tag. -/
def tagMark (k : Cursor) : Reading (TagMark × Cursor) := do
  let (mark, k) ←
    if k.peekAt 1 == some '<' then do
      let (s, k) ← tagText (k.skip 2)
      if k.sees '>' then pure (⟨none, s⟩, k.next) else refuse "expected '>'"
    else if isBlankOrEnd (k.peekAt 1) then pure (⟨none, "!"⟩, k.next)
    else do
      let (handle, k) ← if hasHandle k then tagHandle k else pure ("!", k.next)
      let (s, k) ← tagText k
      pure (TagMark.mk (some handle) s, k)
  if isSpaceOrEnd k.peek then return (mark, k) else refuse "expected ' '"

-- ================================================================ directives

/-- A number of the version that a directive gives. -/
def versionNumber (k : Cursor) : Reading (Nat × Cursor) :=
  let (ds, k) := k.run Char.isDigit
  if ds.isEmpty then refuse "expected a digit"
    else .ok (Decimal.digitsValue ds, k)

/-- What the directive of a version says, after its name. -/
def versionDirective (k : Cursor) : Reading (Directive × Cursor) := do
  let (major, k) ← versionNumber k.skipSpaces
  if !k.sees '.' then refuse "expected a digit or '.'"
  let (_, k) ← versionNumber k.next
  if isSpaceOrEnd k.peek then return (.version major, k)
    else refuse "expected a digit or ' '"

/-- What the directive of a tag says, after its name. -/
def tagDirective (k : Cursor) : Reading (Directive × Cursor) := do
  let (handle, k) ← tagHandle k.skipSpaces
  if !k.sees ' ' then refuse "expected ' '"
  let (lead, k) ← tagText k.skipSpaces
  if isSpaceOrEnd k.peek then return (.tag handle lead, k)
    else refuse "expected ' '"

/-- A directive, and the place on the next line. -/
def directive (k : Cursor) : Reading (Directive × Cursor) := do
  let (name, k) := k.next.run isNameChar
  if name.isEmpty || !isSpaceOrEnd k.peek then
    refuse "expected alphabetic or numeric character"
  let (d, k) ←
    match String.ofList name with
    | "YAML" => versionDirective k
    | "TAG" => tagDirective k
    | _ => pure (.other, k.skipRun (fun c => !isBreak c))
  return (d, ← k.endLine)

end GitPersona.Yaml
