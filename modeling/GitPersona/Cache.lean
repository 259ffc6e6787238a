/-
A bounded cache whose entries expire. The entries stand in the order of
their last use, least recent first: a hit and a write move an entry to
the end, and a write into a full cache drops the first. An expired
entry goes when it is read or when room is made.
-/
import GitPersona.Fault

namespace GitPersona

/-- A kept value, with the moment from which it no longer counts. -/
structure Cache.Entry (κ ν : Type) where
  key : κ
  expiresAt : Float
  value : ν

/-- A cache, with the lifetime that its entries get and the number of entries
it may hold. -/
structure Cache (κ ν : Type) where
  lifetime : Float
  capacity : Int
  /-- The entries, least recently used first. -/
  entries : List (Cache.Entry κ ν) := []

namespace Cache

variable {κ ν : Type} [DecidableEq κ]

/-- How many entries the cache holds, expired ones included. -/
def size (c : Cache κ ν) : Nat :=
  c.entries.length

/-- The entry of a key, expired or not. -/
def find? (c : Cache κ ν) (key : κ) : Option (Entry κ ν) :=
  c.entries.find? (·.key == key)

/-- The entries of the other keys. -/
def others (c : Cache κ ν) (key : κ) : List (Entry κ ν) :=
  c.entries.filter (·.key != key)

/-- Reads the value of a key at a moment. A hit becomes the most recent entry;
an entry whose time has come goes. -/
def get (c : Cache κ ν) (now : Float) (key : κ) : Option ν × Cache κ ν :=
  match c.find? key with
  | none => (none, c)
  | some e =>
    if e.expiresAt ≤ now then (none, { c with entries := c.others key })
    else (some e.value, { c with entries := c.others key ++ [e] })

/-- The entries among which a key is written: those of the other keys, without
the least recent one if the key is new and the cache is full. -/
def roomFor (c : Cache κ ν) (key : κ) : Except Fault (List (Entry κ ν)) :=
  if (c.find? key).isSome then .ok (c.others key)
  else if c.entries.length ≥ c.capacity then
    match c.entries with
    | [] => .error (.mishap .cacheEmpty)
    | _ :: rest => .ok rest
  else .ok c.entries

/-- Writes the value of a key at a moment, with a lifetime of its own if
one is given. -/
def set (c : Cache κ ν) (now : Float) (key : κ) (value : ν)
    (lifetime : Option Float := none) :
    Except Fault (Cache κ ν) :=
  (c.roomFor key).map fun entries =>
    { c with
      entries := entries
        ++ [{ key, expiresAt := now + lifetime.getD c.lifetime, value }] }

/-- The cache without entries. -/
def clear (c : Cache κ ν) : Cache κ ν :=
  { c with entries := [] }

end Cache

end GitPersona
