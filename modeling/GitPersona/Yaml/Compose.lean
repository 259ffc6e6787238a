/-
From the tokens of a YAML text to its one document. Block and flow
collections, their empty entries, and the directives of the document
are read here; anchors are collected, and an alias must come after the
anchor it names. A text may hold one document, or none.
-/
import GitPersona.Yaml.Token
import GitPersona.Yaml.Scalar

namespace GitPersona.Yaml

open Reading (refuse)

-- ================================================================== the state

/-- What is still to be read, and what was met so far. -/
structure Composer where
  tokens : List Token
  /-- What each tag handle stands for. -/
  handles : List (String × String)
  /-- The names of the anchors met so far. -/
  names : List String := []
  /-- The nodes with anchors that are complete. -/
  anchors : Anchors := []

/-- Reading nodes. -/
abbrev Compose (α : Type) := StateT Composer (Except Reading.Failure) α

namespace Compose

/-- The next token. -/
def peek : Compose (Option Token) := do
  return (← get).tokens.head?

/-- Passes over the next token. -/
def drop : Compose Unit :=
  modify fun c => { c with tokens := c.tokens.tail }

/-- Passes over the next token if it is this one, and says whether it was. -/
def take (t : Token) : Compose Bool := do
  if (← peek) == some t then
    drop
    return true
  else return false

/-- The next token is one of these. -/
def sees (ts : List Token) : Compose Bool := do
  return match ← peek with
    | some t => ts.contains t
    | none => false

/-- The tokens do not make a document. -/
def fail {α : Type} (complaint : String) : Compose α :=
  throw (.invalid complaint)

-- ================================================================= properties

/-- The full name of a tag. -/
def fullTag (mark : TagMark) : Compose String := do
  match mark.handle with
  | none => return mark.suffix
  | some handle =>
    match (← get).handles.lookup handle with
    | some lead => return lead ++ mark.suffix
    | none => fail "found undefined tag handle"

/-- The anchor here, if there is one. -/
def anchor? : Compose (Option String) := do
  match ← peek with
  | some (.anchor name) =>
    drop
    return some name
  | _ => return none

/-- The tag here, if there is one. -/
def tag? : Compose (Option String) := do
  match ← peek with
  | some (.tag mark) =>
    drop
    return some (← fullTag mark)
  | _ => return none

/-- The anchor and the tag of a node, in either order. -/
def properties : Compose (Option String × Option String) := do
  match ← anchor? with
  | some name => return (some name, ← tag?)
  | none =>
    let tag ← tag?
    return (← if tag.isSome then anchor? else pure none, tag)

/-- Meets an anchor, which must be new. -/
def meet (name : String) : Compose Unit := do
  if (← get).names.contains name then fail "found duplicate anchor"
  modify fun c => { c with names := name :: c.names }

/-- Completes the node of an anchor. -/
def complete (name : Option String) (n : Node) : Compose Node := do
  match name with
  | some name =>
    modify fun c => { c with anchors := (name, n) :: c.anchors }
    return n
  | none => return n

/-- An alias. -/
def aliasTo (name : String) : Compose Node := do
  drop
  if (← get).names.contains name then return .reference name
  else fail "found undefined alias"

/-- The tag of a scalar: its own, or what a plain one resolves to, or text. A
lone exclamation mark has any scalar resolved as a plain one. -/
def scalarTag (tag : Option String) (plain : Bool) (s : String) : Tag :=
  match tag with
  | some "!" => plainTag s
  | some name => .ofName name
  | none => if plain then plainTag s else .text

/-- The tag of a collection: its own, or that of its kind. -/
def collectionTag (tag : Option String) (kind : Tag) : Tag :=
  match tag with
  | some "!" => kind
  | some name => .ofName name
  | none => kind

/-- The node that stands where one is left out. -/
def emptyNode : Node :=
  .scalar .null ""

-- ====================================================================== nodes

/-- Where a node stands, which says what it may be. -/
inductive Spot
  /-- In a flow collection. -/
  | flow
  /-- In a block. -/
  | block
  /-- In a block mapping, where a sequence needs no indentation. -/
  | mapped
  deriving DecidableEq, Repr

mutual

/-- A node. -/
def node : Nat → Spot → Compose Node
  | 0, _ => fail "nested too deeply"
  | fuel + 1, spot => do
    match ← peek with
    | some (.reference name) => aliasTo name
    | _ =>
      let (name, tag) ← properties
      name.forM meet
      let n ← content fuel spot (name.isSome || tag.isSome) tag
      complete name n

/-- What a node holds, after its properties. -/
def content : Nat → Spot → Bool → Option String → Compose Node
  | 0, _, _, _ => fail "nested too deeply"
  | fuel + 1, spot, hasProperties, tag => do
    match ← peek with
    | some (.scalar plain s) =>
      drop
      return .scalar (scalarTag tag plain s) s
    | some .flowSequenceStart =>
      drop
      return .sequence (collectionTag tag .sequence) (← flowItems fuel true)
    | some .flowMappingStart =>
      drop
      return .mapping (collectionTag tag .mapping) (← flowEntries fuel true)
    | t =>
      if t == some .blockEntry && spot == .mapped then
        return .sequence (collectionTag tag .sequence) (← looseItems fuel)
      else if t == some .blockSequenceStart && spot != .flow then
        drop
        return .sequence (collectionTag tag .sequence) (← blockItems fuel)
      else if t == some .blockMappingStart && spot != .flow then
        drop
        return .mapping (collectionTag tag .mapping) (← blockEntries fuel)
      else if hasProperties then return .scalar (scalarTag tag true "") ""
      else fail "expected the node content"

/-- A node, or the empty one before any of these tokens. -/
def nodeUnless : Nat → Spot → List Token → Compose Node
  | 0, _, _ => fail "nested too deeply"
  | fuel + 1, spot, ts => do
    if ← sees ts then return emptyNode else node fuel spot

/-- The rest of a block sequence. -/
def blockItems : Nat → Compose (List Node)
  | 0 => fail "nested too deeply"
  | fuel + 1 => do
    if ← take .blockEntry then
      let n ← nodeUnless fuel .block [.blockEntry, .blockEnd]
      return n :: (← blockItems fuel)
    else if ← take .blockEnd then return []
    else fail "expected <block end>"

/-- The rest of a block sequence that has no indentation of its own. -/
def looseItems : Nat → Compose (List Node)
  | 0 => fail "nested too deeply"
  | fuel + 1 => do
    if ← take .blockEntry then
      let n ← nodeUnless fuel .block [.blockEntry, .key, .value, .blockEnd]
      return n :: (← looseItems fuel)
    else return []

/-- The rest of a block mapping. -/
def blockEntries : Nat → Compose (List (Node × Node))
  | 0 => fail "nested too deeply"
  | fuel + 1 => do
    if ← take .key then
      let k ← nodeUnless fuel .mapped [.key, .value, .blockEnd]
      let v ←
        if ← take .value then nodeUnless fuel .mapped [.key, .value, .blockEnd]
        else pure emptyNode
      return (k, v) :: (← blockEntries fuel)
    else if ← take .blockEnd then return []
    else fail "expected <block end>"

/-- The rest of a flow sequence. A pair in it is a mapping of its own. -/
def flowItems : Nat → Bool → Compose (List Node)
  | 0, _ => fail "nested too deeply"
  | fuel + 1, first => do
    if ← take .flowSequenceEnd then return []
    if !(← if first then pure true else take .flowEntry) then
      fail "expected ',' or ']'"
    if ← take .key then
      let k ← nodeUnless fuel .flow [.value, .flowEntry, .flowSequenceEnd]
      let v ←
        if ← take .value then nodeUnless fuel .flow [.flowEntry,
          .flowSequenceEnd]
        else pure emptyNode
      return .mapping .mapping [(k, v)] :: (← flowItems fuel false)
    else if ← take .flowSequenceEnd then return []
    else
      let n ← node fuel .flow
      return n :: (← flowItems fuel false)

/-- The rest of a flow mapping. -/
def flowEntries : Nat → Bool → Compose (List (Node × Node))
  | 0, _ => fail "nested too deeply"
  | fuel + 1, first => do
    if ← take .flowMappingEnd then return []
    if !(← if first then pure true else take .flowEntry) then
      fail "expected ',' or the end of a mapping"
    if ← take .key then
      let k ← nodeUnless fuel .flow [.value, .flowEntry, .flowMappingEnd]
      let v ←
        if ← take .value then nodeUnless fuel .flow [.flowEntry,
          .flowMappingEnd]
        else pure emptyNode
      return (k, v) :: (← flowEntries fuel false)
    else if ← take .flowMappingEnd then return []
    else
      let k ← node fuel .flow
      return (k, emptyNode) :: (← flowEntries fuel false)

end

-- ================================================================== documents

/-- The tag handles that every document has. -/
def defaultHandles : List (String × String) :=
  [("!", "!"), ("!!", Tag.lead)]

/-- The directives of a document: at most one version, which must be a version
1, and at most one meaning for each handle. -/
def directives : Nat → Bool → List (String × String) →
    Compose (List (String × String))
  | 0, _, handles => return handles
  | fuel + 1, versioned, handles => do
    match ← peek with
    | some (.directive d) =>
      drop
      match d with
      | .version major =>
        if versioned then fail "found duplicate YAML directive"
        if major != 1 then
          fail "found incompatible YAML document (version 1.* is required)"
        directives fuel true handles
      | .tag handle lead =>
        if (handles.lookup handle).isSome then fail "duplicate tag handle"
        directives fuel versioned ((handle, lead) :: handles)
      | .other => directives fuel versioned handles
    | _ => return handles

/-- Passes over the marks of a document's end. -/
def skipEnds : Compose Unit :=
  modify fun c => { c with tokens := c.tokens.dropWhile (· == .documentEnd) }

/-- The root of the document. An explicit document may be empty. -/
def root (fuel : Nat) : Compose Node := do
  match ← peek with
  | some (.directive _) | some .documentStart =>
    let handles ← directives fuel false []
    modify fun c => { c with handles := handles ++ defaultHandles }
    if !(← take .documentStart) then fail "expected '<document start>'"
    match ← peek with
    | none | some (.directive _) | some .documentStart
        | some .documentEnd => return emptyNode
    | _ => node fuel .block
  | _ => node fuel .block

end Compose

/-- The document that tokens make, none if they hold none, and its nodes
with anchors. -/
def compose (tokens : List Token) : Reading (Option Node × Anchors) := do
  let start : Composer := { tokens, handles := Compose.defaultHandles }
  if tokens.isEmpty then return (none, [])
  let (n, c) ← (Compose.root (4 * tokens.length + 4)).run start
  let (_, c) ← Compose.skipEnds.run c
  if c.tokens.isEmpty then return (some n, c.anchors)
  else refuse "expected a single document in the stream"

end GitPersona.Yaml
