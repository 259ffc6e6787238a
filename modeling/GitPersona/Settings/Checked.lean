/-
Checked values: a value together with everything that is wrong with
what it was read from. Reading goes on after an issue, so that all of
them are found; the value counts only when there are none.
-/
import GitPersona.Settings.Issue

namespace GitPersona.Settings

/-- A value, and the issues met while reading it. -/
structure Checked (α : Type) where
  value : α
  issues : List Issue := []

namespace Checked

instance : Monad Checked where
  pure a := ⟨a, []⟩
  bind x f := ⟨(f x.value).value, x.issues ++ (f x.value).issues⟩

variable {α β : Type}

/-- A value without issues. -/
def ok (a : α) : Checked α :=
  ⟨a, []⟩

/-- A problem with the value itself. -/
def wrong [Inhabited α] (p : Problem) : Checked α :=
  ⟨default, [⟨[], p⟩]⟩

/-- The same reading, seen from one step further out. -/
def under (s : Step) (x : Checked α) : Checked α :=
  ⟨x.value, x.issues.map fun i => { i with location := s :: i.location }⟩

/-- The value, if nothing is wrong with it. -/
def result (x : Checked α) : Except (List Issue) α :=
  if x.issues = [] then .ok x.value else .error x.issues

/-- The readings of the items of a list, each under its place. -/
def each (f : β → Checked α) : Nat → List β → Checked (List α)
  | _, [] => ok []
  | n, b :: bs => do
    let a ← (f b).under (.index n)
    let as ← each f (n + 1) bs
    return a :: as

end Checked

end GitPersona.Settings
