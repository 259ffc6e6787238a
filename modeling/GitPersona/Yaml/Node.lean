/-
The nodes of a YAML document, with their tags. A reference stays a node of
its own: the node it stands for is found by the name of its anchor,
which no other node of the document has.
-/

namespace GitPersona.Yaml

/-- What a tag says about the value of a node. -/
inductive Tag
  | null
  | bool
  | int
  | float
  | text
  | binary
  | timestamp
  | sequence
  | mapping
  | set
  | orderedMap
  | pairs
  /-- The key of a mapping that other mappings are merged into. -/
  | merge
  /-- The key of the default value of a mapping. -/
  | value
  | other (name : String)
  deriving DecidableEq, Repr

/-- What the names of the tags that have a meaning start with. -/
def Tag.lead : String :=
  "tag:yaml.org,2002:"

/-- The tags that have a meaning, by what follows in their names. -/
def Tag.known : List (String × Tag) :=
  [("null", .null), ("bool", .bool), ("int", .int), ("float", .float),
    ("str", .text), ("binary", .binary), ("timestamp", .timestamp),
    ("seq", .sequence), ("map", .mapping), ("set", .set),
    ("omap", .orderedMap), ("pairs", .pairs), ("merge", .merge),
    ("value", .value)]

/-- The tag of a name. -/
def Tag.ofName (name : String) : Tag :=
  match Tag.known.find? fun e => Tag.lead ++ e.1 == name with
  | some e => e.2
  | none => .other name

/-- A node. -/
inductive Node
  | scalar (tag : Tag) (text : String)
  | sequence (tag : Tag) (items : List Node)
  | mapping (tag : Tag) (entries : List (Node × Node))
  | reference (anchor : String)

namespace Node

instance : Inhabited Node := ⟨scalar .null ""⟩

/-- The tag of a node. -/
def tag? : Node → Option Tag
  | scalar t _ => some t
  | sequence t _ => some t
  | mapping t _ => some t
  | reference _ => none

end Node

/-- The nodes with anchors, by name. -/
abbrev Anchors := List (String × Node)

/-- The node that a node stands for. -/
def Anchors.target (anchors : Anchors) : Node → Node
  | .reference name => (anchors.lookup name).getD (.reference name)
  | n => n

end GitPersona.Yaml
