/-
How alike a query and a text are. Both are trimmed and case folded
first; equal texts score one, and no algorithm gives one to unequal
texts.
-/
import GitPersona.Lookup.EditDistance
import GitPersona.Choice
import GitPersona.Text.Case
import GitPersona.Settings.Basic

namespace GitPersona.Lookup

open Float.Model (UnpackedFloat)

-- ============================================================== comparisons

/-- The first text stands somewhere in the second. -/
def occursIn (q : List Char) : List Char → Bool
  | [] => q.isEmpty
  | c :: t => q.isPrefixOf (c :: t) || occursIn q t

/-- How many characters of a query are found in a text, each after the one
found before it; a character that is not found is passed over. -/
def placedCount : List Char → List Char → Nat
  | [], _ => 0
  | c :: q, t =>
    match t.dropWhile (· != c) with
    | [] => placedCount q t
    | _ :: rest => 1 + placedCount q rest

/-- A natural, however great, as a number that is not rounded. -/
def exactly (n : Nat) : UnpackedFloat :=
  if h : n = 0 then .zero .positive
    else .finite .positive n 0 (Nat.pos_of_ne_zero h)

/-- The double nearest to the quotient of two naturals, however
great they are. -/
def ratio (m n : Nat) : Float :=
  .ofModel (.pack (.div .binary64 (exactly m) (exactly n)))

/-- How alike two unequal texts are, neither of them empty. -/
def similarity (q t : List Char) : Algorithm → Float
  | .exact => 0.0
  | .leading =>
    if q.isPrefixOf t then 0.6 + 0.35 * ratio q.length t.length else 0.0
  | .substring => if occursIn q t then 0.5 else 0.0
  | .levenshtein => 1.0 - ratio (editDistance q t) (max q.length t.length)
  | .subsequence => 0.7 * Float.ofNat (placedCount q t) / Float.ofNat q.length

-- =================================================================== scores

/-- The score of two normalized texts. -/
def scoreNormalized (a : Algorithm) (q t : List Char) : Float :=
  if q = t then 1.0
  else if q = [] ∨ t = [] then 0.0
  else clamp (similarity q t a)

/-- The score of a query against a text, letter case and outer
blanks ignored. -/
def score (a : Algorithm) (query target : String) : Float :=
  scoreNormalized a (Text.normalize query) (Text.normalize target)

end GitPersona.Lookup
