/-
From a TOML text to its value. A text is a list of statements, one to a
line: entries, and headers that say which table the entries after them
belong to.
-/
import GitPersona.Toml.Tables

namespace GitPersona.Toml

open Reading (refuse)

-- ===================================================================== values

/-- What a reader gives, or a complaint. -/
def orRefuse {α : Type} (complaint : String) : Option α → Reading α
  | some a => .ok a
  | none => refuse complaint

mutual

/-- A value, and what follows. -/
def value : Nat → List Char → Reading (Document × List Char)
  | 0, _ => refuse "nested too deeply"
  | fuel + 1, cs =>
    match cs with
    | '"' :: r => do
      let (s, rest) ← anyString '"' r
      return (.text (String.ofList s), rest)
    | '\'' :: r => do
      let (s, rest) ← anyString '\'' r
      return (.text (String.ofList s), rest)
    | 't' :: 'r' :: 'u' :: 'e' :: rest => .ok (.bool true, rest)
    | 'f' :: 'a' :: 'l' :: 's' :: 'e' :: rest => .ok (.bool false, rest)
    | '[' :: r => do
      let (items, rest) ← listItems fuel r
      return (.list items, rest)
    | '{' :: r =>
      match skipGaps r with
      | '}' :: rest => .ok (.mapping [], rest)
      | r => do
        let (t, rest) ← inlineEntries fuel [] {} r
        return (.mapping t, rest)
    | cs =>
      match date? cs, time? cs, number? cs with
      | some (d, rest), _, _ => d.map fun d => (d, rest)
      | none, some (d, rest), _ => .ok (d, rest)
      | none, none, some (d, rest) => d.map fun d => (d, rest)
      | none, none, none => refuse "invalid value"

/-- The rest of a list: nothing more, or a value and, after a
comma, the rest. -/
def listItems : Nat → List Char → Reading (List Document × List Char)
  | 0, _ => refuse "nested too deeply"
  | fuel + 1, cs => do
    match ← skipLines (cs.length + 1) cs with
    | ']' :: rest => return ([], rest)
    | r =>
      let (d, r) ← value fuel r
      match ← skipLines (r.length + 1) r with
      | ']' :: rest => return ([d], rest)
      | ',' :: r =>
        let (more, rest) ← listItems fuel r
        return (d :: more, rest)
      | _ => refuse "unclosed array"

/-- An entry: a key, its value, and what follows. -/
def entry : Nat → List Char → Reading ((Way × Document) × List Char)
  | 0, _ => refuse "nested too deeply"
  | fuel + 1, cs => do
    let (w, r) ← way (cs.length + 1) cs
    match r with
    | '=' :: r =>
      let (d, rest) ← value fuel (skipGaps r)
      return ((w, d), rest)
    | _ => refuse "expected '=' after a key in a key/value pair"

/-- The rest of a table on one line, at least one entry. -/
def inlineEntries :
    Nat → Table → Closed → List Char → Reading (Table × List Char)
  | 0, _, _, _ => refuse "nested too deeply"
  | fuel + 1, t, closed, cs => do
    let ((w, d), r) ← entry fuel cs
    if closed.isWhole w then refuse "cannot mutate immutable namespace"
    let t ← orRefuse "cannot overwrite a value"
      (change false (withEntry (w.getLast?.getD "") d) w.dropLast t)
    match skipGaps r with
    | '}' :: rest => return (t, rest)
    | ',' :: r => inlineEntries fuel t (closed.close w d) (skipGaps r)
    | _ => refuse "unclosed inline table"

end

-- ================================================================= statements

/-- What was read so far. -/
structure State where
  root : Table := []
  closed : Closed := {}
  /-- The ways that the entries since the last header went through. -/
  pending : List Way := []
  /-- The way to the table that the entries belong to. -/
  header : Way := []

namespace State

/-- Enters a value. The tables on the way from the header's table to it must
not have been declared. -/
def enter (s : State) (w : Way) (d : Document) : Reading State := do
  let passed := (List.range (w.length - 1)).map fun n => s.header
    ++ w.take (n + 1)
  if passed.any s.closed.isDeclared then refuse "cannot redefine namespace"
  let parent := s.header ++ w.dropLast
  if parent != [] && s.closed.isWhole parent then
    refuse "cannot mutate immutable namespace"
  let root ← orRefuse "cannot overwrite a value"
    (change true (withEntry (w.getLast?.getD "") d) parent s.root)
  return { s with
    root
    closed := s.closed.close (s.header ++ w) d
    pending := s.pending ++ passed }

/-- Closes the ways that the entries of a table went through. -/
def settle (s : State) : State :=
  { s with closed := s.pending.foldl Closed.declare s.closed, pending := [] }

/-- Goes on with a table of its own. -/
def openTable (s : State) (w : Way) : Reading State := do
  if s.closed.isDeclared w || s.closed.isWhole w then
    refuse "cannot declare a table twice"
  let root ← orRefuse "cannot overwrite a value" (change true some w s.root)
  return { s with root, closed := s.closed.declare w, header := w }

/-- Goes on with a new table in a list. -/
def openItem (s : State) (w : Way) : Reading State := do
  if s.closed.isWhole w then refuse "cannot mutate immutable namespace"
  let root ← orRefuse "cannot overwrite a value"
    (change true (withItem (w.getLast?.getD "")) w.dropLast s.root)
  return { s with root, closed := (s.closed.reopen w).declare w, header := w }

/-- Reads a header after its first bracket. -/
def takeHeader (s : State) (cs : List Char) : Reading (State × List Char) :=
  match cs with
  | '[' :: r => do
    let (w, r) ← way (r.length + 1) (skipGaps r)
    let s ← s.settle.openItem w
    match r with
    | ']' :: ']' :: rest => return (s, rest)
    | _ => refuse "expected ']]' at the end of an array declaration"
  | r => do
    let (w, r) ← way (r.length + 1) (skipGaps r)
    let s ← s.settle.openTable w
    match r with
    | ']' :: rest => return (s, rest)
    | _ => refuse "expected ']' at the end of a table declaration"

/-- Reads a statement, if one starts here. -/
def takeStatement (s : State) (cs : List Char) : Reading (State × List Char) :=
  match cs with
  | [] => .ok (s, [])
  | '[' :: r => s.takeHeader r
  | c :: _ =>
    if c = '#' || c = '\n' then .ok (s, cs)
    else if isBareKeyChar c || c = '"' || c = '\'' then do
      let ((w, d), rest) ← entry (2 * cs.length + 2) cs
      return (← s.enter w d, rest)
    else refuse "invalid statement"

/-- Reads statements to the end of the text. -/
def readAll : Nat → State → List Char → Reading State
  | 0, s, _ => .ok s
  | fuel + 1, s, cs => do
    let (s, r) ← s.takeStatement (skipGaps cs)
    match ← skipComment (skipGaps r) with
    | [] => return s
    | '\n' :: rest => readAll fuel s rest
    | _ => refuse "expected newline or end of document after a statement"

end State

/-- A text with a line feed where a carriage return and a line feed stood. -/
def unifyLines : List Char → List Char
  | '\r' :: '\n' :: r => '\n' :: unifyLines r
  | c :: r => c :: unifyLines r
  | [] => []

/-- The table that a TOML text describes. -/
def read (s : String) : Reading Document := do
  let cs := unifyLines s.toList
  let state ← State.readAll (cs.length + 1) {} cs
  return .mapping state.root

end GitPersona.Toml
