/-
Matching a text against a pattern without backtracking. The stars cut
the pattern into segments of fixed length. The first segment stands at
the start of the text, the last at its end, and each one between takes
its leftmost place after the one before. `Cut` says what a match is
without saying how one is found: some way to cut the text into
consecutive pieces, one for each element.
-/
import GitPersona.Glob.Pattern

namespace GitPersona.Glob

open Text

-- ============================================================== every cut

/-- The text can be cut into consecutive pieces, one for each element: a run
for a star, one character that it takes for any other. -/
inductive Cut (casing : Casing) : List Element → List Char → Prop
  | done : Cut casing [] []
  | run {es : List Element} {cs : List Char} (piece : List Char) :
      Cut casing es cs → Cut casing (.star :: es) (piece ++ cs)
  | one {e : Element} {es : List Element} {c : Char} {cs : List Char} :
      e.takes casing c = true → Cut casing es cs →
        Cut casing (e :: es) (c :: cs)

-- =============================================================== segments

/-- The pieces of a pattern between its stars, one more than
there are stars. -/
def segments : List Element → List (List Element)
  | [] => [[]]
  | .star :: es => [] :: segments es
  | e :: es =>
    match segments es with
    | [] => [[e]]
    | s :: ss => (e :: s) :: ss

/-- The elements take the characters one by one, with none of either left. -/
def fits (casing : Casing) : List Element → List Char → Bool
  | [], [] => true
  | e :: es, c :: cs => e.takes casing c && fits casing es cs
  | _, _ => false

/-- What is left of a text once a segment has taken its start. -/
def afterStart? (casing : Casing) :
    List Element → List Char → Option (List Char)
  | [], cs => some cs
  | _ :: _, [] => none
  | e :: es, c :: cs => if e.takes casing c then afterStart? casing es cs
      else none

/-- What is left of a text after the leftmost place that a segment can take. -/
def afterFirst? (casing : Casing) (segment : List Element) :
    List Char → Option (List Char)
  | [] => afterStart? casing segment []
  | c :: cs =>
    match afterStart? casing segment (c :: cs) with
    | some rest => some rest
    | none => afterFirst? casing segment cs

/-- A segment takes the end of a text. -/
def fitsEnd (casing : Casing) (segment : List Element)
    (cs : List Char) : Bool :=
  segment.length ≤ cs.length
    && fits casing segment (cs.drop (cs.length - segment.length))

/-- The segments after a star: each but the last takes its leftmost place, the
last the end. -/
def fitsAfterStar (casing : Casing) : List (List Element) → List Char → Bool
  | [], _ => true
  | [last], cs => fitsEnd casing last cs
  | segment :: more, cs =>
    match afterFirst? casing segment cs with
    | some rest => fitsAfterStar casing more rest
    | none => false

/-- The whole text fits the elements. -/
def fitsWhole (casing : Casing) (es : List Element) (cs : List Char) : Bool :=
  match segments es with
  | [] => cs.isEmpty
  | [only] => fits casing only cs
  | first :: more =>
    match afterStart? casing first cs with
    | some rest => fitsAfterStar casing more rest
    | none => false

-- =========================================================== the whole text

/-- The whole text matches the pattern. A literal pattern is compared as one
text, case ignored by full folding; any other goes element by element. -/
def accepts (casing : Casing) (pattern text : List Char) : Bool :=
  if isLiteral pattern then
    match casing with
    | .sensitive => pattern == text
    | .insensitive => fold pattern == fold text
  else fitsWhole casing (elements pattern) text

end GitPersona.Glob
