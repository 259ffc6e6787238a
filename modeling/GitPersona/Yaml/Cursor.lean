/-
A place in a YAML text: what is still to be read, and where that is.
Line breaks are the line feed, the next-line character and the two
Unicode separators; the text has been through line-end translation, so
that carriage returns do not occur.
-/
import GitPersona.Reading

namespace GitPersona.Yaml

open Reading (refuse)

-- ================================================================ characters

/-- A character that ends a line. -/
def isBreak (c : Char) : Bool :=
  c == '\n' || c.toNat == 0x85 || c.toNat == 0x2028 || c.toNat == 0x2029

/-- A space or a tab. -/
def isGap (c : Char) : Bool :=
  c == ' ' || c == '\t'

/-- The end of the text, a space or a line break. -/
def isSpaceOrEnd : Option Char → Bool
  | none => true
  | some c => c == ' ' || isBreak c

/-- The end of the text or anything blank. -/
def isBlankOrEnd : Option Char → Bool
  | none => true
  | some c => isGap c || isBreak c

/-- The end of the text or of the line. -/
def isBreakOrEnd : Option Char → Bool
  | none => true
  | some c => isBreak c

/-- A character of a name: a letter or digit of ASCII, a hyphen or
an underscore. -/
def isNameChar (c : Char) : Bool :=
  c.isAlphanum || c == '-' || c == '_'

/-- The byte order mark. -/
def byteOrderMark : Char :=
  Char.ofNat 0xFEFF

/-- A character that a text may contain. -/
def isAllowed (c : Char) : Bool :=
  let n := c.toNat
  n == 0x09 || n == 0x0A || n == 0x0D || (0x20 ≤ n && n ≤ 0x7E) || n == 0x85
    || (0xA0 ≤ n && n ≤ 0xD7FF) || (0xE000 ≤ n && n ≤ 0xFFFD) || 0x10000 ≤ n

-- ==================================================================== places

/-- A place in a text. -/
structure Cursor where
  /-- What is still to be read. -/
  rest : List Char
  /-- How many characters have been read. -/
  index : Nat := 0
  line : Nat := 0
  /-- How many characters of the line have been read, byte order
  marks left out. -/
  column : Nat := 0

namespace Cursor

/-- The next character. -/
def peek (k : Cursor) : Option Char :=
  k.rest.head?

/-- The character that is so many after the next one. -/
def peekAt (k : Cursor) (n : Nat) : Option Char :=
  k.rest[n]?

/-- The next character is this one. -/
def sees (k : Cursor) (c : Char) : Bool :=
  k.peek == some c

/-- The place after the next character. -/
def next (k : Cursor) : Cursor :=
  match k.rest with
  | [] => k
  | c :: r =>
    if isBreak c then
      { rest := r, index := k.index + 1, line := k.line + 1, column := 0 }
    else
      { k with
        rest := r
        index := k.index + 1
        column := if c = byteOrderMark then k.column else k.column + 1 }

/-- The place so many characters further. -/
def skip : Nat → Cursor → Cursor
  | 0, k => k
  | n + 1, k => skip n k.next

/-- The run of characters of a class, and the place after it. -/
def run (p : Char → Bool) (k : Cursor) : List Char × Cursor :=
  let cs := k.rest.takeWhile p
  (cs, k.skip cs.length)

/-- The place after a run of characters of a class. -/
def skipRun (p : Char → Bool) (k : Cursor) : Cursor :=
  (k.run p).2

/-- The place after the spaces. -/
def skipSpaces (k : Cursor) : Cursor :=
  k.skipRun (· == ' ')

/-- The place at the end of the line, if a comment starts here. -/
def skipComment (k : Cursor) : Cursor :=
  if k.sees '#' then k.skipRun (fun c => !isBreak c) else k

/-- What the line break here stands for, nothing if there is none, and the
place after it. The Unicode separators stand for themselves, the others for
a line feed. -/
def lineBreak (k : Cursor) : List Char × Cursor :=
  match k.peek with
  | some c =>
    if c == '\n' || c.toNat == 0x85 then (['\n'], k.next)
    else if isBreak c then ([c], k.next)
    else ([], k)
  | none => ([], k)

/-- Three hyphens or three points stand here, with nothing but a
blank after them. -/
def atMark (k : Cursor) (c : Char) : Bool :=
  k.rest.take 3 == [c, c, c] && isBlankOrEnd (k.peekAt 3)

/-- The mark of a document's start or end stands here. -/
def atDocumentMark (k : Cursor) : Bool :=
  k.atMark '-' || k.atMark '.'

/-- The rest of a line that must hold nothing more than a comment, and the
place after it. -/
def endLine (k : Cursor) : Reading Cursor :=
  let k := k.skipSpaces.skipComment
  if isBreakOrEnd k.peek then .ok k.lineBreak.2
  else refuse "expected a comment or a line break"

end Cursor

end GitPersona.Yaml
