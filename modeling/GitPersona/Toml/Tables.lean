/-
Tables under construction. A way leads from a table through tables
below it, made where they are missing. Which ways are closed is kept
apart from the tables: a table that was declared cannot be declared
again, and what was written as one value cannot be extended.
-/
import GitPersona.Toml.Lexeme

namespace GitPersona.Toml

-- ===================================================================== tables

/-- The entries of a table. -/
abbrev Table := List (Document × Document)

/-- Changes the table at the end of a way. Through a list of tables, if that is
allowed, the way leads into the last one. There is no such table if a way leads
through anything else. -/
def change (throughLists : Bool) (f : Table → Option Table) :
    Way → Table → Option Table
  | [], t => f t
  | k :: ks, t =>
    let put (d : Document) := Document.put (.text k) d t
    match Document.lookupText k t with
    | none => (change throughLists f ks []).map fun inner =>
        put (.mapping inner)
    | some (.mapping inner) =>
      (change throughLists f ks inner).map fun inner => put (.mapping inner)
    | some (.list items) =>
      match throughLists, items.getLast? with
      | true, some (.mapping inner) =>
        (change throughLists f ks inner).map fun inner =>
          put (.list (items.dropLast ++ [.mapping inner]))
      | _, _ => none
    | some _ => none

/-- A table with a new entry. -/
def withEntry (k : String) (d : Document) (t : Table) : Option Table :=
  match Document.lookupText k t with
  | some _ => none
  | none => some (Document.put (.text k) d t)

/-- A table with an empty table more in one of its lists. -/
def withItem (k : String) (t : Table) : Option Table :=
  match Document.lookupText k t with
  | none => some (Document.put (.text k) (.list [.mapping []]) t)
  | some (.list items) =>
      some (Document.put (.text k) (.list (items ++ [.mapping []])) t)
  | some _ => none

-- ================================================================ closed ways

/-- The ways that are closed. -/
structure Closed where
  /-- To tables that were declared. -/
  declared : List Way := []
  /-- To values that were written as a whole, and everything below them. -/
  whole : List Way := []

namespace Closed

/-- A way leads to a table that was declared. -/
def isDeclared (c : Closed) (w : Way) : Bool :=
  c.declared.contains w

/-- A way leads to a value that was written as a whole, or into one. -/
def isWhole (c : Closed) (w : Way) : Bool :=
  c.whole.any (·.isPrefixOf w)

/-- Closes a way to a table. -/
def declare (c : Closed) (w : Way) : Closed :=
  { c with declared := w :: c.declared }

/-- Closes a way and everything below it, if it leads to a list or a table. -/
def close (c : Closed) (w : Way) (d : Document) : Closed :=
  match d with
  | .list _ | .mapping _ => { c with whole := w :: c.whole }
  | _ => c

/-- Opens a way and everything below it. -/
def reopen (c : Closed) (w : Way) : Closed :=
  { declared := c.declared.filter fun v => !w.isPrefixOf v
    whole := c.whole.filter fun v => !w.isPrefixOf v }

end Closed

end GitPersona.Toml
