/-
Letter case. Two comparisons that ignore it are in use and they differ:

- `fold` is full case folding, which may turn one character into
  several (`ß` into `ss`); whole texts are compared by it.
- `lower` maps one character to one character; `sameLetter` compares
  two characters by it, joining the few letters that the mapping leaves
  apart (`twins`). Patterns are compared by it, character by character.

Both treat the ASCII letters directly, without a table. `lowerAll` is
the lower case of a whole text, in which the names of settings and of
variables are compared: there the dotted capital I keeps its dot.
-/
import GitPersona.Text.Case.Table
import GitPersona.Text.Blank

namespace GitPersona.Text

open Case

-- ================================================== one-to-one lower case

/-- The image of a code point under the run that holds it, itself
if none does. -/
def mapRuns (runs : List Run) (n : Nat) : Nat :=
  match runs.find? (·.holds n) with
  | some r => r.image n
  | none => n

/-- The lower case form of a character, always a single character. -/
def lower (c : Char) : Char :=
  if c.toNat < 0x80 then c.toLower else Char.ofNat (mapRuns lowerRuns c.toNat)

/-- A text in lower case. One character becomes two: the dotted capital I, a
small i and its dot. -/
def lowerAll (cs : List Char) : List Char :=
  cs.flatMap fun c => if c.toNat = 0x130 then ['i', Char.ofNat 0x307]
    else [lower c]

/-- The lower case letters that count as the same letter as the
code point `n`. -/
def twinsOf (n : Nat) : List Nat :=
  match twins.find? (·.contains n) with
  | some ts => ts
  | none => [n]

/-- Two characters that differ at most in letter case. -/
def sameLetter (c d : Char) : Bool :=
  (twinsOf (lower c).toNat).contains (lower d).toNat

/-- The code points whose lower case form is `n`, itself first. -/
def casings (n : Nat) : List Nat :=
  n :: (if 0x61 ≤ n && n ≤ 0x7A then [n - 0x20] else [])
    ++ lowerRuns.filterMap (·.source? n)

/-- Every code point that differs from `c` at most in letter case. -/
def variants (c : Char) : List Nat :=
  (twinsOf (lower c).toNat).flatMap casings

-- ====================================================== full case folding

/-- The full case folding of a character. -/
def foldChar (c : Char) : List Char :=
  if c.toNat < 0x80 then [c.toLower]
  else
    match foldSequences.lookup c.toNat with
    | some ns => ns.map Char.ofNat
    | none => [Char.ofNat (mapRuns foldRuns c.toNat)]

/-- The full case folding of a text. -/
def fold (cs : List Char) : List Char :=
  cs.flatMap foldChar

/-- The form in which names and queries are compared: trimmed and folded. -/
def normalize (s : String) : List Char :=
  fold (strip s.toList)

end GitPersona.Text
