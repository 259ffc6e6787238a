/-
The tokens of YAML. Indentation shows as explicit starts and ends of
block collections.
-/

namespace GitPersona.Yaml

/-- What a directive says. -/
inductive Directive
  | version (major : Nat)
  | tag (handle lead : String)
  | other
  deriving DecidableEq, Repr

/-- A tag as it is written: a handle, which is none for a verbatim tag, and
what follows it. -/
structure TagMark where
  handle : Option String
  suffix : String
  deriving DecidableEq, Repr

/-- A token. -/
inductive Token
  | directive (d : Directive)
  | documentStart
  | documentEnd
  | blockSequenceStart
  | blockMappingStart
  | blockEnd
  | flowSequenceStart
  | flowSequenceEnd
  | flowMappingStart
  | flowMappingEnd
  | blockEntry
  | flowEntry
  | key
  | value
  | reference (name : String)
  | anchor (name : String)
  | tag (mark : TagMark)
  /-- A scalar, and whether it is written without quotes on its line. -/
  | scalar (plain : Bool) (text : String)
  deriving DecidableEq, Repr

end GitPersona.Yaml
