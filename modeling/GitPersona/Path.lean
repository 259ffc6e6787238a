/-
Slash-separated paths, read lexically: no file system is consulted. A
path is an anchor and a list of parts; reading drops empty and `.`
parts and keeps `..`. `resolve` makes a path absolute and removes the
`..` parts, so that "inside" is "the parts of one start the parts of
the other". That the parts of a path are proper parts is carried by its
type, so what a path is written as reads back as that path.

Two things keep a text from leading anywhere (`Path.Defect`): it starts
in a home directory that the system does not know, or it holds a NUL,
which the system takes in no name.
-/
import GitPersona.Text.Blank

namespace GitPersona

/-- The character that ends a text for the system, and is in no name. -/
def nul : Char := Char.ofNat 0

/-- What a path starts from. Exactly two leading slashes are an anchor
of their own. -/
inductive Anchor
  | relative
  | slash
  | doubleSlash
  deriving DecidableEq, Repr

/-- What a path keeps as a part: not empty, not a dot, without a slash. -/
def isPart (cs : List Char) : Bool :=
  cs != [] && cs != ['.'] && !cs.contains '/'

/-- A path: where it starts, then the parts that its slashes separate. -/
structure Path where
  anchor : Anchor
  parts : List String
  /-- Every part is one that reading keeps. -/
  proper : ∀ part ∈ parts, isPart part.toList = true
  deriving DecidableEq, Repr

namespace Path

/-- The root of the file system. -/
def root : Path :=
  ⟨.slash, [], by simp⟩

-- ================================================================ text form

/-- The slashes that an anchor is written with. -/
def anchorChars : Anchor → List Char
  | .relative => []
  | .slash => ['/']
  | .doubleSlash => ['/', '/']

/-- The anchor that a text starts with. -/
def anchorOf (cs : List Char) : Anchor :=
  match (cs.takeWhile (· == '/')).length with
  | 0 => .relative
  | 2 => .doubleSlash
  | _ => .slash

/-- The parts that slashes separate in a text. -/
def partsOf (cs : List Char) : List String :=
  ((cs.splitOn '/').filter isPart).map String.ofList

theorem partsOf_proper (cs : List Char) :
    ∀ part ∈ partsOf cs, isPart part.toList = true := by
  intro part hpart
  obtain ⟨ps, hps, rfl⟩ := List.mem_map.1 hpart
  rw [String.toList_ofList]
  exact (List.mem_filter.1 hps).2

/-- Reads a path. -/
def parse (s : String) : Path :=
  { anchor := anchorOf s.toList
    parts := partsOf s.toList
    proper := partsOf_proper s.toList }

/-- The characters of a path: a dot stands for the relative path
without parts. -/
def chars (p : Path) : List Char :=
  match p.anchor, p.parts with
  | .relative, [] => ['.']
  | a, ps => anchorChars a ++ ['/'].intercalate (ps.map String.toList)

/-- The text of a path. -/
def text (p : Path) : String :=
  String.ofList p.chars

-- ============================================================ parts of paths

/-- The path starts at a root. -/
def isAbsolute (p : Path) : Bool :=
  p.anchor != .relative

/-- The last part, empty for a path without parts. -/
def name (p : Path) : String :=
  p.parts.getLast?.getD ""

/-- The directory that holds the path's last part; a path without parts is
its own parent. -/
def parent (p : Path) : Path :=
  { p with
    parts := p.parts.dropLast
    proper := fun part h =>
      p.proper part ((List.dropLast_sublist _).subset h) }

/-- The path of the first parts. -/
def take (p : Path) (n : Nat) : Path :=
  { p with
    parts := p.parts.take n
    proper := fun part h => p.proper part (List.mem_of_mem_take h) }

/-- The parent directories, nearest first, the bare anchor left out. -/
def ancestors (p : Path) : List Path :=
  (List.range' 1 (p.parts.length - 1)).reverse.map p.take

/-- The extension of the last part, with its dot: what follows the last dot,
provided that something stands on either side of it. -/
def suffix (p : Path) : String :=
  let cs := p.name.toList
  let extension := (cs.reverse.takeWhile (· != '.')).reverse
  if extension.isEmpty || cs.length ≤ extension.length + 1 then ""
  else String.ofList ('.' :: extension)

/-- A path followed by further parts. -/
def append (p : Path) (parts : List String)
    (h : ∀ part ∈ parts, isPart part.toList = true) : Path :=
  { p with
    parts := p.parts ++ parts
    proper := fun part hpart => (List.mem_append.1 hpart).elim (p.proper part)
      (h part) }

/-- The second path seen from the first: appended to it, or alone when it
is absolute. -/
def join (p q : Path) : Path :=
  if q.isAbsolute then q else p.append q.parts q.proper

/-- A part of the path holds a NUL. -/
def holdsNull (p : Path) : Bool :=
  p.parts.any (·.toList.contains nul)

/-- Why a text leads to no path. -/
inductive Defect
  /-- It starts in a home directory that is not known. -/
  | homeUnknown
  /-- It holds a NUL. -/
  | nullByte
  deriving DecidableEq, Repr

end Path

-- ======================================================== home directories

/-- The home directories that a system knows: that of whoever runs the
program, and those of its users by name. -/
structure Homes where
  own : Option String
  ofUser : String → Option String := fun _ => none

namespace Homes

/-- The home directory of a user, the own one for an empty name. -/
def of? (homes : Homes) (user : String) : Option String :=
  if user = "" then homes.own else homes.ofUser user

/-- The path that a home directory is given by. Trailing slashes do not
count; nothing else is the root. One that itself starts with a tilde
names no directory. -/
def directoryOf? (home : String) : Option Path :=
  match Text.dropEndWhile (· == '/') home.toList with
  | [] => some Path.root
  | '~' :: _ => none
  | cs => some (Path.parse (String.ofList cs))

/-- The home directory of a user as a path. The system is not asked for
a user whose name holds a NUL. -/
def directory (homes : Homes) (user : String) : Except Path.Defect Path :=
  if user.toList.contains nul then .error .nullByte
  else
    match (homes.of? user).bind directoryOf? with
    | some base => .ok base
    | none => .error .homeUnknown

end Homes

namespace Path

-- ============================================================== resolution

/-- Replaces a leading `~` or `~user` part by the home directory that
it stands for. -/
def expandHome (homes : Homes) (p : Path) : Except Defect Path :=
  match p.anchor, h : p.parts with
  | .relative, first :: rest =>
    match first.toList with
    | '~' :: user =>
      (homes.directory (String.ofList user)).map fun base =>
        base.append rest fun part hpart =>
          p.proper part (h ▸ List.mem_cons_of_mem _ hpart)
    | _ => .ok p
  | _, _ => .ok p

/-- The parts passed so far, latest first, after one more: `..` goes back up,
and at the root it does nothing. -/
def enter (passed : List String) (part : String) : List String :=
  if part = ".." then passed.tail else part :: passed

/-- Parts without `..`: each one removes the part before it. -/
def collapse (parts : List String) : List String :=
  (parts.foldl enter []).reverse

/-- Going on through parts meets no part that was not there. -/
theorem mem_of_mem_foldl_enter {part : String} {parts passed : List String}
    (h : part ∈ parts.foldl enter passed) : part ∈ parts ∨ part ∈ passed := by
  induction parts generalizing passed with
  | nil => exact Or.inr h
  | cons first rest ih =>
      rcases ih h with hrest | hpassed
      · exact Or.inl (List.mem_cons_of_mem _ hrest)
      · unfold enter at hpassed
        split at hpassed
        · exact Or.inr (List.mem_of_mem_tail hpassed)
        · rcases List.mem_cons.1 hpassed with hfirst | hpassed'
          · exact Or.inl (hfirst ▸ List.mem_cons_self)
          · exact Or.inr hpassed'

theorem mem_of_mem_collapse {part : String} {parts : List String}
    (h : part ∈ collapse parts) : part ∈ parts := by
  rcases mem_of_mem_foldl_enter (List.mem_reverse.1 h) with hparts | hnil
  · exact hparts
  · cases hnil

/-- The path without its `..` parts, under an anchor. -/
def collapsed (p : Path) (anchor : Anchor) : Path :=
  { anchor
    parts := collapse p.parts
    proper := fun part h => p.proper part (mem_of_mem_collapse h) }

/-- The path made absolute against the directory `cwd`, without `..`
parts. An absolute path loses a double slash; a relative one takes the
anchor of `cwd`. Nothing is found at a path that holds a NUL. -/
def resolve (cwd p : Path) : Except Defect Path :=
  let whole := cwd.join p
  if whole.holdsNull then .error .nullByte
  else .ok (whole.collapsed (if p.isAbsolute then .slash else cwd.anchor))

/-- The canonical form of a path as a user writes it: home expanded,
absolute, no `..`. -/
def normalize (homes : Homes) (cwd : Path) (s : String) :
    Except Defect Path := do
  let p ← (parse s).expandHome homes
  resolve cwd p

/-- The path is the directory or lies below it, part by part. -/
def isAtOrBelow (p directory : Path) : Bool :=
  p.anchor == directory.anchor && directory.parts.isPrefixOf p.parts

/-- The path is the directory that the text names, or lies below it. A
relative directory, or one whose home is unknown, contains nothing. -/
def isWithin (homes : Homes) (p : Path) (directory : String) :
    Except Defect Bool :=
  match (parse directory).expandHome homes with
  | .error .homeUnknown => .ok false
  | .error .nullByte => .error .nullByte
  | .ok base =>
    if base.isAbsolute then (resolve root base).map p.isAtOrBelow
    else .ok false

end Path

end GitPersona
