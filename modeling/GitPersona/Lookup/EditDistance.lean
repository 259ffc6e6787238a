/-
The edit distance of two texts: the least number of characters to
insert, delete or replace so that one becomes the other. It is computed
a row at a time, from the ends of the texts: a row holds the distances
of one suffix of the first text to every suffix of the second, longest
first.
-/

namespace GitPersona.Lookup

/-- The distances of the empty text to every suffix of a text. -/
def lastRow : List Char → List Nat
  | [] => [0]
  | c :: t => (c :: t).length :: lastRow t

/-- The row of a suffix that starts with `c`, from the row of the
suffix after it. -/
def rowBefore (c : Char) : List Char → List Nat → List Nat
  | d :: t, here :: below :: row =>
    match rowBefore c t (below :: row) with
    | [] => []
    | right :: rest =>
      (if c = d then below else 1 + min here (min right below)) :: right
        :: rest
  | _, row => row.map (· + 1)

/-- The edit distance of two texts. -/
def editDistance (q t : List Char) : Nat :=
  (q.foldr (fun c row => rowBefore c t row) (lastRow t)).headD 0

end GitPersona.Lookup
