/-
Glob patterns, read into elements. A pattern is a list of elements: the
star, the question mark, a bracket expression, or a character standing
for itself. Reading is total: a `[` that nothing closes stands for
itself, so every text is a pattern.
-/
import GitPersona.Text.Case

namespace GitPersona.Glob

open Text

-- ============================================================= the elements

/-- Whether letter case tells characters apart. -/
inductive Casing
  | sensitive
  | insensitive
  deriving DecidableEq, Repr

/-- A member of a bracket expression: a character, or the span between two. -/
inductive Member
  | one (c : Char)
  | span (lo hi : Char)
  deriving DecidableEq, Repr

/-- A bracket expression, which takes a character among its members or,
negated, any other. -/
structure CharClass where
  negated : Bool
  members : List Member
  deriving DecidableEq, Repr

/-- What a pattern is made of. -/
inductive Element
  /-- Any run of characters, the empty one included. -/
  | star
  /-- Any one character. -/
  | anyOne
  /-- One character of a class. -/
  | among (k : CharClass)
  /-- The character itself. -/
  | exactly (c : Char)
  deriving DecidableEq, Repr

-- ============================================== what takes which character

/-- The member stands for the character. -/
def Member.holds : Casing → Member → Char → Bool
  | .sensitive, .one a, c => a == c
  | .sensitive, .span lo hi, c => lo ≤ c && c ≤ hi
  | .insensitive, .one a, c => sameLetter a c
  | .insensitive, .span lo hi, c =>
    (variants c).any fun n => lo.toNat ≤ n && n ≤ hi.toNat

/-- The class takes the character. -/
def CharClass.takes (casing : Casing) (k : CharClass) (c : Char) : Bool :=
  k.members.any (fun m => m.holds casing c) != k.negated

/-- The element takes the character as its one character. The star takes runs,
not characters. -/
def Element.takes (casing : Casing) : Element → Char → Bool
  | .star, _ => false
  | .anyOne, _ => true
  | .among k, c => k.takes casing c
  | .exactly a, c =>
    match casing with
    | .sensitive => a == c
    | .insensitive => sameLetter a c

-- ========================================================== reading classes

/-- The members that a class body spells. A hyphen with a character on either
side spans the two; a character ends at most one span. -/
def membersOf : List Char → List Member
  | a :: '-' :: b :: r => .span a b :: membersOf r
  | a :: r => .one a :: membersOf r
  | [] => []

/-- A span whose ends are out of order. -/
def Member.isEmpty : Member → Bool
  | .one _ => false
  | .span lo hi => hi < lo

/-- The members that hold something: spans out of order vanish, their
ends with them. -/
def inhabited (ms : List Member) : List Member :=
  ms.filter fun m => !m.isEmpty

/-- The class that a body spells. A leading `!` negates, also one that leads
only once the empty spans before it are gone; the hyphen of a span that it
began is then a plain member. -/
def CharClass.ofBody : List Char → CharClass
  | '!' :: r => ⟨true, inhabited (membersOf r)⟩
  | body =>
    match inhabited (membersOf body) with
    | .one '!' :: ms => ⟨true, ms⟩
    | .span '!' c :: ms => ⟨true, .one '-' :: .one c :: ms⟩
    | ms => ⟨false, ms⟩

/-- The start of a bracket body in which a `]` is an ordinary character, and
what follows it. -/
def bracketLead : List Char → List Char × List Char
  | '!' :: ']' :: r => (['!', ']'], r)
  | '!' :: r => (['!'], r)
  | ']' :: r => ([']'], r)
  | r => ([], r)

/-- The body of a bracket expression and what follows its `]`, when
one closes it. -/
def bracket? (cs : List Char) : Option (List Char × List Char) :=
  match (bracketLead cs).2.dropWhile (· != ']') with
  | [] => none
  | _ :: after =>
    some ((bracketLead cs).1 ++ (bracketLead cs).2.takeWhile (· != ']'), after)

/-- The lead of a bracket body takes nothing from the text but
what it holds. -/
theorem bracketLead_append (cs : List Char) :
    (bracketLead cs).1 ++ (bracketLead cs).2 = cs := by
  unfold bracketLead
  split <;> rfl

/-- What follows a bracket expression is shorter than what followed its `[`. -/
theorem length_of_bracket? {cs body after : List Char}
    (h : bracket? cs = some (body, after)) :
    after.length < cs.length := by
  unfold bracket? at h
  split at h
  · exact absurd h (by simp)
  · next c r hdrop =>
    obtain ⟨-, rfl⟩ : _ ∧ r = after := by simpa using h
    have hle : ((bracketLead cs).2.dropWhile (· != ']')).length
        ≤ (bracketLead cs).2.length :=
      (List.dropWhile_sublist _).length_le
    have hlen : (bracketLead cs).1.length + (bracketLead cs).2.length
        = cs.length := by
      rw [← List.length_append, bracketLead_append]
    rw [hdrop] at hle
    simp only [List.length_cons] at hle
    omega

-- ========================================================= reading patterns

/-- The elements of a pattern, left to right. -/
def elements (cs : List Char) : List Element :=
  match cs with
  | [] => []
  | '*' :: r => .star :: elements r
  | '?' :: r => .anyOne :: elements r
  | '[' :: r =>
    match h : bracket? r with
    | some (body, after) =>
      have : after.length < r.length := length_of_bracket? h
      .among (CharClass.ofBody body) :: elements after
    | none => .exactly '[' :: elements r
  | c :: r => .exactly c :: elements r
  termination_by cs.length

/-- The characters that can make a pattern more than a literal. -/
def isWildcard (c : Char) : Bool :=
  c == '*' || c == '?' || c == '['

/-- A pattern without wildcard characters. -/
def isLiteral (pattern : List Char) : Bool :=
  !pattern.any isWildcard

/-- The part of a pattern up to and including its last `/` or `:`. -/
def namespacePart (pattern : List Char) : List Char :=
  Text.dropEndWhile (fun c => c != '/' && c != ':') pattern

/-- Every wildcard stands after the last separator, and there is one of each:
the pattern pins everything but the last segment. -/
def wildcardsInLastSegment (pattern : List Char) : Bool :=
  !isLiteral pattern && !(namespacePart pattern).isEmpty
    && isLiteral (namespacePart pattern)

end GitPersona.Glob
