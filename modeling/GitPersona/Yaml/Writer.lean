/-
Writing values as YAML, one entry or item to a line. A text is quoted
when it would be read as something else without quotes.
-/
import GitPersona.Yaml.Scanner
import GitPersona.Yaml.Scalar
import GitPersona.Decimal.Shortest

namespace GitPersona.Yaml

-- ==================================================================== scalars

/-- A text that a plain scalar cannot hold: it starts like a sign of structure,
holds one, or has the form of another kind. -/
def needsQuotes (s : String) : Bool :=
  match s.toList with
  | [] => true
  | c :: r =>
    plainTag s != .text || Scanner.isIndicator c || isGap c
      || ((c == '-' || c == '?' || c == ':') && isBlankOrEnd r.head?)
      || (stretch false (c :: r)).length != (c :: r).length

/-- A text in single quotes. -/
def singleQuoted (s : String) : String :=
  String.ofList ('\'' :: s.toList.flatMap
    (fun c => if c = '\'' then ['\'', '\''] else [c]) ++ ['\''])

/-- A text that may hold single spaces, with quotes if it needs them. -/
def writtenText (s : String) : String :=
  if (s.toList.splitOn ' ').any fun word => needsQuotes (String.ofList word)
    then singleQuoted s
  else s

/-- A value that is written in a line. -/
def writtenScalar : Document → String
  | .bool true => "true"
  | .bool false => "false"
  | .int i => Decimal.intText i
  | .float x => String.ofList (Decimal.shortestChars x)
  | .text s => writtenText s
  | .moment _ s => s
  | .list _ => "[]"
  | .set _ => "[]"
  | .mapping _ => "\x7b\x7d"
  | _ => "null"

-- ================================================================ collections

/-- Lines of which the first is led by something and the others are
indented as far. -/
def led (lead : String) : List String → List String
  | [] => []
  | line :: lines =>
    (lead ++ line) :: lines.map fun l =>
      String.ofList (List.replicate lead.length ' ') ++ l

mutual

/-- The lines of a value. -/
def lines : Document → List String
  | .mapping (e :: es) => entryLines (e :: es)
  | .list (x :: xs) => itemLines (x :: xs)
  | d => [writtenScalar d]

/-- The lines of the entries of a mapping. A list stands as far
left as its key. -/
def entryLines : List (Document × Document) → List String
  | [] => []
  | (k, v) :: rest =>
    (match v with
      | .mapping (e :: es) =>
        (writtenScalar k ++ ":") :: (entryLines (e :: es)).map ("  " ++ ·)
      | .list (x :: xs) => (writtenScalar k ++ ":") :: itemLines (x :: xs)
      | v => [writtenScalar k ++ ": " ++ writtenScalar v]) ++ entryLines rest

/-- The lines of the items of a list. -/
def itemLines : List Document → List String
  | [] => []
  | x :: rest => led "- " (lines x) ++ itemLines rest

end

/-- A value as a YAML text. -/
def write (d : Document) : String :=
  String.join ((lines d).map (· ++ "\n"))

end GitPersona.Yaml
