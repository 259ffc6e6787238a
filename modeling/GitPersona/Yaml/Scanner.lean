/-
From a YAML text to its tokens. In block context the scanner turns
indentation into tokens of its own. A mapping key shows only when the
colon after it is found; until then the scanner remembers, for each
level of flow collections, where a key could have started, and writes
the key's token there afterwards. Such a key has to fit on one line and
in 1024 characters.
-/
import GitPersona.Yaml.Lexeme

namespace GitPersona.Yaml

open Reading (refuse)

-- ============================================================ where it stands

/-- A place where a key could have started. -/
structure PossibleKey where
  /-- How many tokens stand before it. -/
  position : Nat
  /-- A key it must be, if the text is to be YAML. -/
  required : Bool
  start : Cursor

/-- The state of a scanner. -/
structure Scanner where
  cursor : Cursor
  /-- The tokens so far, the last one first. -/
  tokens : List Token := []
  /-- The column of the innermost block, and of those around it. -/
  indent : Int := -1
  outer : List Int := []
  /-- How many flow collections are open. -/
  flowLevel : Nat := 0
  /-- A key may start at the next token. -/
  keyAllowed : Bool := true
  /-- The possible keys by level. -/
  keys : List (Nat × PossibleKey) := []

namespace Scanner

/-- The scanner is inside a flow collection. -/
def inFlow (s : Scanner) : Bool :=
  s.flowLevel != 0

/-- The column of the next character. -/
def column (s : Scanner) : Int :=
  s.cursor.column

/-- Writes a token. -/
def write (s : Scanner) (t : Token) : Scanner :=
  { s with tokens := t :: s.tokens }

/-- Writes a token behind so many of the first tokens. -/
def writeAt (s : Scanner) (position : Nat) (t : Token) : Scanner :=
  let after := s.tokens.length - position
  { s with tokens := s.tokens.take after ++ t :: s.tokens.drop after }

-- ============================================================== possible keys

/-- The longest that a key may be when its colon comes after it on the line. -/
def longestKey : Nat := 1024

/-- The possible key of the present level. -/
def key? (s : Scanner) : Option PossibleKey :=
  s.keys.lookup s.flowLevel

/-- Forgets possible keys, none of which may be required. -/
def forget (s : Scanner) (which : Nat × PossibleKey → Bool) :
    Reading Scanner :=
  if s.keys.any fun e => which e && e.2.required then
    refuse "while scanning a simple key: could not find expected ':'"
  else .ok { s with keys := s.keys.filter fun e => !which e }

/-- Forgets the possible keys that have become too long. -/
def forgetStale (s : Scanner) : Reading Scanner :=
  s.forget fun e =>
    e.2.start.line != s.cursor.line
      || longestKey < s.cursor.index - e.2.start.index

/-- Forgets the possible key of the present level. -/
def forgetKey (s : Scanner) : Reading Scanner :=
  s.forget fun e => e.1 == s.flowLevel

/-- Remembers that a key could start here. In a block it must be one if it
stands at the block's column. -/
def rememberKey (s : Scanner) : Reading Scanner :=
  if s.keyAllowed then do
    let key : PossibleKey :=
      { position := s.tokens.length
        required := !s.inFlow && s.indent == s.column
        start := s.cursor }
    let s ← s.forgetKey
    return { s with keys := (s.flowLevel, key) :: s.keys }
  else .ok s

-- ================================================================ indentation

/-- Closes the blocks that stand further right than a column. -/
def closeTo (column : Int) (s : Scanner) : Nat → Scanner
  | 0 => s
  | fuel + 1 =>
    if column < s.indent then
      closeTo column
        { s with
          indent := s.outer.headD (-1)
          outer := s.outer.tail
          tokens := .blockEnd :: s.tokens } fuel
    else s

/-- Closes the blocks that a line of this column ends. Inside flow collections
columns do not count. -/
def unwind (s : Scanner) (column : Int) : Scanner :=
  if s.inFlow then s else s.closeTo column (s.outer.length + 1)

/-- A block that starts at a column stands further right than the
one it is in. -/
def opensBlock (s : Scanner) (column : Int) : Bool :=
  s.indent < column

/-- Enters a block at a column. -/
def enter (s : Scanner) (column : Int) : Scanner :=
  { s with indent := column, outer := s.indent :: s.outer }

/-- Enters a block here, if one starts. -/
def enterHere (s : Scanner) (start : Token) : Scanner :=
  if s.opensBlock s.column then (s.enter s.column).write start else s

-- ================================================================= the tokens

/-- Goes on to the next token, past blanks, comments and line breaks. A key may
start on a new line, in block context. -/
def toNextToken : Nat → Scanner → Scanner
  | 0, s => s
  | fuel + 1, s =>
    let k := s.cursor.skipSpaces.skipComment
    if isBreakOrEnd k.peek && k.peek.isSome then
      toNextToken fuel
        { s with cursor := k.lineBreak.2, keyAllowed := s.keyAllowed
          || !s.inFlow }
    else { s with cursor := k }

/-- Reads past so many characters and writes a token for them. -/
def take (s : Scanner) (count : Nat) (t : Token) : Scanner :=
  { s with cursor := s.cursor.skip count, tokens := t :: s.tokens }

/-- A directive. -/
def takeDirective (s : Scanner) : Reading Scanner := do
  let s ← (s.unwind (-1)).forgetKey
  let (d, k) ← directive s.cursor
  return { s.write (.directive d) with cursor := k, keyAllowed := false }

/-- The mark of a document's start or end. -/
def takeDocumentMark (s : Scanner) (t : Token) : Reading Scanner := do
  let s ← (s.unwind (-1)).forgetKey
  return { s.take 3 t with keyAllowed := false }

/-- The start of a flow collection. -/
def takeFlowStart (s : Scanner) (t : Token) : Reading Scanner := do
  let s ← s.rememberKey
  return { s.take 1 t with flowLevel := s.flowLevel + 1, keyAllowed := true }

/-- The end of a flow collection. -/
def takeFlowEnd (s : Scanner) (t : Token) : Reading Scanner := do
  if !s.inFlow then refuse "expected the node content"
  let s ← s.forgetKey
  return { s.take 1 t with flowLevel := s.flowLevel - 1, keyAllowed := false }

/-- The comma of a flow collection. -/
def takeFlowEntry (s : Scanner) : Reading Scanner := do
  let s ← s.forgetKey
  return { s.take 1 .flowEntry with keyAllowed := true }

/-- The hyphen of a block sequence. -/
def takeBlockEntry (s : Scanner) : Reading Scanner := do
  if !s.inFlow && !s.keyAllowed then
    refuse "sequence entries are not allowed here"
  let s := if s.inFlow then s else s.enterHere .blockSequenceStart
  let s ← s.forgetKey
  return { s.take 1 .blockEntry with keyAllowed := true }

/-- The question mark of a key. -/
def takeKey (s : Scanner) : Reading Scanner := do
  if !s.inFlow && !s.keyAllowed then refuse "mapping keys are not allowed here"
  let s := if s.inFlow then s else s.enterHere .blockMappingStart
  let s ← s.forgetKey
  return { s.take 1 .key with keyAllowed := !s.inFlow }

/-- The colon of a value whose key was remembered. -/
def takeValueOf (s : Scanner) (key : PossibleKey) : Scanner :=
  let s := { s with keys := s.keys.filter fun e => e.1 != s.flowLevel }
  let s := s.writeAt key.position .key
  let s :=
    if !s.inFlow && s.opensBlock key.start.column then
      (s.enter key.start.column).writeAt key.position .blockMappingStart
    else s
  { s.take 1 .value with keyAllowed := false }

/-- The colon of a value. -/
def takeValue (s : Scanner) : Reading Scanner :=
  match s.key? with
  | some key => .ok (s.takeValueOf key)
  | none => do
    if !s.inFlow && !s.keyAllowed then
      refuse "mapping values are not allowed here"
    let s := if s.inFlow then s else s.enterHere .blockMappingStart
    let s ← s.forgetKey
    return { s.take 1 .value with keyAllowed := !s.inFlow }

/-- An alias or an anchor. -/
def takeName (s : Scanner) (t : String → Token) : Reading Scanner := do
  let s ← s.rememberKey
  let (name, k) ← anchorName s.cursor.next
  return { s.write (t name) with cursor := k, keyAllowed := false }

/-- A tag. -/
def takeTag (s : Scanner) : Reading Scanner := do
  let s ← s.rememberKey
  let (mark, k) ← tagMark s.cursor
  return { s.write (.tag mark) with cursor := k, keyAllowed := false }

/-- A literal or folded scalar. -/
def takeBlockScalar (s : Scanner) (fold : Bool) : Reading Scanner := do
  let s ← s.forgetKey
  let (cs, k) ← blockScalar fold s.indent s.cursor
  return { s.write (.scalar false (String.ofList cs))
    with cursor := k, keyAllowed := true }

/-- A quoted scalar. -/
def takeQuoted (s : Scanner) (quote : Char) : Reading Scanner := do
  let s ← s.rememberKey
  let (cs, k) ← quoted quote s.cursor
  return { s.write (.scalar false (String.ofList cs))
    with cursor := k, keyAllowed := false }

/-- A plain scalar. -/
def takePlain (s : Scanner) : Reading Scanner := do
  let s ← s.rememberKey
  let (cs, k, newLine) := plain s.inFlow s.indent s.cursor
  return { s.write (.scalar true (String.ofList cs))
    with cursor := k, keyAllowed := newLine }

-- ============================================================ which one it is

/-- A character that no plain scalar starts with, whatever follows. -/
def isIndicator (c : Char) : Bool :=
  ",[]\x7b\x7d#&*!|>'\"%@".contains c || c.toNat == 0x60

/-- A plain scalar may start here. -/
def startsPlain (s : Scanner) (c : Char) : Bool :=
  if c == '-' || c == '?' || c == ':' then
    !isBlankOrEnd (s.cursor.peekAt 1) && (c == '-' || !s.inFlow)
  else !(isGap c || isBreak c || isIndicator c)

/-- A sign of block structure stands here, which in a block has a
blank after it. -/
def structures (s : Scanner) : Bool :=
  s.inFlow || isBlankOrEnd (s.cursor.peekAt 1)

/-- Reads the token that starts with a character. -/
def takeToken (s : Scanner) (c : Char) : Reading Scanner :=
  let k := s.cursor
  if k.column = 0 && c = '%' then s.takeDirective
  else if k.column = 0 && k.atMark '-' then s.takeDocumentMark .documentStart
  else if k.column = 0 && k.atMark '.' then s.takeDocumentMark .documentEnd
  else if c = '[' then s.takeFlowStart .flowSequenceStart
  else if c = '{' then s.takeFlowStart .flowMappingStart
  else if c = ']' then s.takeFlowEnd .flowSequenceEnd
  else if c = '}' then s.takeFlowEnd .flowMappingEnd
  else if c = ',' then s.takeFlowEntry
  else if c = '-' && isBlankOrEnd (k.peekAt 1) then s.takeBlockEntry
  else if c = '?' && s.structures then s.takeKey
  else if c = ':' && s.structures then s.takeValue
  else if c = '*' then s.takeName .reference
  else if c = '&' then s.takeName .anchor
  else if c = '!' then s.takeTag
  else if c = '|' && !s.inFlow then s.takeBlockScalar false
  else if c = '>' && !s.inFlow then s.takeBlockScalar true
  else if c = '\'' || c = '"' then s.takeQuoted c
  else if s.startsPlain c then s.takePlain
  else refuse "found character that cannot start any token"

/-- Reads to the end of the text. -/
def finish (s : Scanner) : Reading (List Token) := do
  let s ← (s.unwind (-1)).forgetKey
  return s.tokens.reverse

/-- Reads tokens up to the end of the text. -/
def readAll : Nat → Scanner → Reading (List Token)
  | 0, s => s.finish
  | fuel + 1, s => do
    let s := s.toNextToken (s.cursor.rest.length + 1)
    let s ← s.forgetStale
    let s := s.unwind s.column
    match s.cursor.peek with
    | none => s.finish
    | some c => readAll fuel (← s.takeToken c)

end Scanner

/-- The tokens of a text. A byte order mark at its start does not count. -/
def scan (cs : List Char) : Reading (List Token) :=
  if !cs.all isAllowed then refuse "special characters are not allowed"
  else
    let k : Cursor := { rest := cs }
    let k := if k.sees byteOrderMark then k.next else k
    Scanner.readAll (cs.length + 1) { cursor := k }

end GitPersona.Yaml
