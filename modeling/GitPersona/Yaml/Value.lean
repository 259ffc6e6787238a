/-
From a YAML document to its value. A mapping takes in the mappings that
are merged into it, whose entries come first and give way to its own.
An alias has the value of the node it stands for; inside that node
itself it is unrolled once, which is as deep as settings look.
-/
import GitPersona.Yaml.Scanner
import GitPersona.Yaml.Compose

namespace GitPersona.Yaml

open Reading (refuse)

-- ==================================================================== merging

/-- The entries of a mapping with one entry for its key, which as a key of its
own is a text. -/
def plainKey (entry : Node × Node) : Node × Node :=
  match entry.1 with
  | .scalar .value s => (.scalar .text s, entry.2)
  | _ => entry

mutual

/-- The entries of a mapping with those that it merges in, in the order
in which they are laid over one another, inside the aliases that are
being merged. -/
def flattened (anchors : Anchors) :
    Nat → List String → List (Node × Node) → Reading (List (Node × Node))
  | 0, _, _ => refuse "nested too deeply"
  | fuel + 1, path, entries => do
    let isMerge (e : Node × Node) := (anchors.target e.1).tag? == some .merge
    let merged ← (entries.filter isMerge).mapM fun e =>
        mergedEntries anchors fuel path e.2
    return merged.flatten ++ (entries.filter fun e => !isMerge e).map plainKey

/-- The entries that a merge key brings: those of a mapping, or of the
mappings of a list, of which the first one counts most. A mapping brings
itself nothing. -/
def mergedEntries (anchors : Anchors) :
    Nat → List String → Node → Reading (List (Node × Node))
  | 0, _, _ => refuse "nested too deeply"
  | fuel + 1, path, n =>
    match n with
    | .reference name =>
      if path.contains name then .ok []
      else
        match anchors.lookup name with
        | some target => mergedEntries anchors fuel (name :: path) target
        | none => refuse "found undefined alias"
    | .mapping _ entries => flattened anchors fuel path entries
    | .sequence _ items => do
      let parts ← items.mapM fun item =>
        match anchors.target item with
        | .mapping _ _ => mergedEntries anchors fuel path item
        | _ => refuse "expected a mapping for merging"
      return parts.reverse.flatten
    | .scalar _ _ => refuse
        "expected a mapping or list of mappings for merging"

end

-- ===================================================================== values

/-- The text of a scalar, or of the default value of a mapping. -/
def scalarText? (anchors : Anchors) : Nat → Node → Option String
  | 0, _ => none
  | fuel + 1, n =>
    match anchors.target n with
    | .scalar _ s => some s
    | .mapping _ entries =>
      (entries.find? fun e => (anchors.target e.1).tag? == some .value).bind
        fun e => scalarText? anchors fuel e.2
    | _ => none

/-- The value of an alias to a node that it stands in, once it has
been unrolled. -/
def cutOff : Node → Document
  | .sequence _ _ => .list []
  | .mapping _ _ => .mapping []
  | _ => .null

/-- How often an alias is unrolled inside the node that it stands for. -/
def unrollings : Nat := 2

/-- A tag that a scalar has a value for. -/
def isScalarTag : Tag → Bool
  | .null | .bool | .int | .float | .text | .binary | .timestamp => true
  | _ => false

mutual

/-- The value of a node inside the aliases that are being unrolled. -/
def nodeValue (anchors : Anchors) : Nat → List String → Node → Reading Document
  | 0, _, _ => refuse "nested too deeply"
  | fuel + 1, path, n =>
    match n with
    | .reference name =>
      let target := anchors.target n
      if unrollings ≤ path.count name then .ok (cutOff target)
      else
        match target with
        | .reference _ => refuse "found undefined alias"
        | _ => nodeValue anchors fuel (name :: path) target
    | .scalar tag s => scalarValue tag s
    | .sequence tag items =>
      match tag with
      | .sequence =>
          do return .list (← items.mapM (nodeValue anchors fuel path))
      | .orderedMap | .pairs =>
          do return .list (← items.mapM (pairValue anchors fuel path))
      | .mapping | .set => refuse "expected a mapping node, but found sequence"
      | tag =>
        if isScalarTag tag then
          refuse "expected a scalar node, but found sequence"
        else refuse "could not determine a constructor for the tag"
    | .mapping tag entries =>
      match tag with
      | .mapping => do
        return .mapping
          (Document.ofPairs (← entryValues anchors fuel path entries))
      | .set => do
        let pairs ← entryValues anchors fuel path entries
        return .set ((Document.ofPairs pairs).map Prod.fst)
      | .sequence | .orderedMap | .pairs =>
          refuse "expected a sequence node, but found mapping"
      | tag =>
        if !isScalarTag tag then
          refuse "could not determine a constructor for the tag"
        else
          match scalarText? anchors fuel n with
          | some s => scalarValue tag s
          | none => refuse "expected a scalar node, but found mapping"

/-- The entries of a mapping, those merged in first. -/
def entryValues (anchors : Anchors) :
    Nat → List String → List (Node × Node) →
      Reading (List (Document × Document))
  | 0, _, _ => refuse "nested too deeply"
  | fuel + 1, path, entries => do
    let entries ← flattened anchors fuel [] entries
    entries.mapM fun (k, v) => do
      let key ← nodeValue anchors fuel path k
      if key.key?.isNone then refuse "found unhashable key"
      return (key, ← nodeValue anchors fuel path v)

/-- The one entry of a mapping in an ordered map, as a list of two. -/
def pairValue (anchors : Anchors) : Nat → List String → Node → Reading Document
  | 0, _, _ => refuse "nested too deeply"
  | fuel + 1, path, n =>
    match anchors.target n with
    | .mapping _ [(k, v)] => do
      return .list [← nodeValue anchors fuel path k, ← nodeValue anchors fuel
        path v]
    | _ => refuse "expected a mapping of length 1"

end

-- ============================================================= the whole text

/-- A text with a line feed for every end of line. -/
def unifyLines : List Char → List Char
  | '\r' :: '\n' :: r => '\n' :: unifyLines r
  | '\r' :: r => '\n' :: unifyLines r
  | c :: r => c :: unifyLines r
  | [] => []

/-- The value of a YAML text; a text without a document has a null. -/
def read (s : String) : Reading Document := do
  let tokens ← scan (unifyLines s.toList)
  match ← compose tokens with
  | (none, _) => return .null
  | (some n, anchors) =>
    nodeValue anchors ((4 * tokens.length + 4) * (anchors.length + 1)
      * unrollings) [] n

end GitPersona.Yaml
