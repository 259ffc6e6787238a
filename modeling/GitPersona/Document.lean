/-
The values that settings files and environment variables hold, before
anything is known about what they should be.
-/

namespace GitPersona

/-- The kinds of points in time. -/
inductive Moment
  | date
  | dateTime
  | time
  deriving DecidableEq, Repr

/-- A value of a document. A mapping lists its pairs in the order in which the
keys first came. -/
inductive Document
  | null
  | bool (b : Bool)
  | int (i : Int)
  | float (x : Float)
  | text (s : String)
  | bytes (octets : List UInt8)
  | moment (kind : Moment) (written : String)
  | list (items : List Document)
  | set (items : List Document)
  | mapping (entries : List (Document × Document))

namespace Document

instance : Inhabited Document := ⟨null⟩

/-- The kind of a value, as messages name it. -/
def kindName : Document → String
  | null => "NoneType"
  | bool _ => "bool"
  | int _ => "int"
  | float _ => "float"
  | text _ => "str"
  | bytes _ => "bytes"
  | moment .date _ => "date"
  | moment .dateTime _ => "datetime"
  | moment .time _ => "time"
  | list _ => "list"
  | set _ => "set"
  | mapping _ => "dict"

/-- A value that counts as no value: null, false, zero, or empty. -/
def isVoid : Document → Bool
  | null => true
  | bool b => !b
  | int i => i == 0
  | float x => x == 0.0
  | text s => s == ""
  | bytes octets => octets.isEmpty
  | moment _ _ => false
  | list items => items.isEmpty
  | set items => items.isEmpty
  | mapping entries => entries.isEmpty

-- ================================================================== mappings

/-- A value that can be a key. Numbers and truth values that are equal
are one key. -/
inductive Key
  | null
  | number (x : Float) (exact : Option Int)
  | text (s : String)
  | bytes (octets : List UInt8)
  | moment (kind : Moment) (written : String)

/-- The key that a value makes, if it can be one. -/
def key? : Document → Option Key
  | null => some .null
  | bool b =>
      some (.number (if b then 1.0 else 0.0) (some (if b then 1 else 0)))
  | int i => some (.number (Float.ofInt i) (some i))
  | float x => some (.number x none)
  | text s => some (.text s)
  | bytes octets => some (.bytes octets)
  | moment kind written => some (.moment kind written)
  | _ => none

/-- Two values are one and the same key. -/
def sameKey (a b : Document) : Bool :=
  match a.key?, b.key? with
  | some .null, some .null => true
  | some (.number _ (some i)), some (.number _ (some j)) => i == j
  | some (.number x _), some (.number y _) => x == y
  | some (.text s), some (.text t) => s == t
  | some (.bytes s), some (.bytes t) => s == t
  | some (.moment k s), some (.moment l t) => k == l && s == t
  | _, _ => false

/-- Writes a pair into a list of pairs: in place when the key is there, at the
end when not. -/
def put (key value : Document) :
    List (Document × Document) → List (Document × Document)
  | [] => [(key, value)]
  | (k, v) :: rest =>
    if k.sameKey key then (k, value) :: rest else (k, v) :: put key value rest

/-- The mapping that a list of pairs describes: of several pairs for a key the
last one counts. -/
def ofPairs (pairs : List (Document × Document)) :
    List (Document × Document) :=
  pairs.foldl (fun es e => put e.1 e.2 es) []

/-- The value of a text key in a list of pairs. -/
def lookupText (name : String) : List (Document × Document) → Option Document
  | [] => none
  | (.text k, v) :: rest => if k = name then some v else lookupText name rest
  | _ :: rest => lookupText name rest

/-- The pairs of the second mapping laid over those of the
first, key by key. -/
def overlay (below above : List (Document × Document)) :
    List (Document × Document) :=
  above.foldl (fun es e => put e.1 e.2 es) below

end Document

end GitPersona
