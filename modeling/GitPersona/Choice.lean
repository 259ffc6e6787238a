/-
Choosing among numbers and among things that have them: the first
greatest element of a list, and numbers brought into the unit interval.
-/

namespace GitPersona

/-- The first element of a list that no other exceeds. -/
def firstMax {α : Type} (exceeds : α → α → Bool) : List α → Option α
  | [] => none
  | a :: as =>
      some (as.foldl (fun best x => if exceeds x best then x else best) a)

/-- A number brought into the unit interval. -/
def clamp (x : Float) : Float :=
  min (max x 0.0) 1.0

end GitPersona
