/-
A tree of files, as a list of entries by their place below the root.
Following a path goes part by part and consults the tree at each:
`a/../b` leads nowhere while `a` does not exist. There are no links, so
a place has one path without `..`. A path that holds a NUL is not
followed at all.
-/
import GitPersona.Fault

namespace GitPersona

/-- What stands at a place. -/
inductive FileTree.Entry
  | file (text : String)
  | directory
  deriving DecidableEq, Repr

/-- A tree of files: the entries below the root, the latest of a
place first. -/
structure FileTree where
  entries : List (List String × FileTree.Entry) := []

namespace FileTree

-- ================================================================== following

/-- The entry at a place. The root is always a directory. -/
def entry? (t : FileTree) (place : List String) : Option Entry :=
  if place = [] then some .directory else t.entries.lookup place

/-- Puts an entry at a place, over any that stands there. -/
def put (t : FileTree) (place : List String) (e : Entry) : FileTree :=
  ⟨(place, e) :: t.entries⟩

/-- Why a path cannot be followed. -/
inductive Obstacle
  | notFound
  | notDirectory
  | nullByte
  deriving DecidableEq, Repr

/-- The place that some parts lead to from a place, every step of the way
being there. -/
def walk (t : FileTree) (place : List String) :
    List String → Except Obstacle (List String)
  | [] => .ok place
  | part :: rest =>
    match t.entry? place with
    | none => .error .notFound
    | some (.file _) => .error .notDirectory
    | some .directory =>
      if part = ".." then t.walk place.dropLast rest
      else if (t.entry? (place ++ [part])).isSome then
        t.walk (place ++ [part]) rest
      else .error .notFound

/-- Where the parts of a path are followed from. -/
def start (cwd p : Path) : List String :=
  if p.isAbsolute then [] else cwd.parts

/-- The place that a path leads to. -/
def locate (t : FileTree) (cwd p : Path) : Except Obstacle (List String) :=
  if p.holdsNull then .error .nullByte else t.walk (start cwd p) p.parts

/-- A path leads somewhere. -/
def exists? (t : FileTree) (cwd p : Path) : Bool :=
  match t.locate cwd p with
  | .ok _ => true
  | .error _ => false

/-- A path leads to a directory. -/
def isDirectory (t : FileTree) (cwd p : Path) : Bool :=
  match t.locate cwd p with
  | .ok place => t.entry? place == some .directory
  | .error _ => false

-- ==================================================================== reading

/-- The text of the file that a path leads to, nothing if it leads nowhere. -/
def read? (t : FileTree) (cwd p : Path) : Except Mishap (Option String) :=
  match t.locate cwd p with
  | .error .notFound => .ok none
  | .error .notDirectory => .error (.notDirectory p.text)
  | .error .nullByte => .error (.badPath .nullByte)
  | .ok place =>
    match t.entry? place with
    | some (.file text) => .ok (some text)
    | some .directory => .error (.isDirectory p.text)
    | none => .ok none

-- ==================================================================== writing

/-- How an attempt to make one directory ends. -/
inductive Making
  | made (t : FileTree)
  | parentMissing
  | parentNotDirectory
  | taken

/-- An attempt to make the directory that parts lead to from a place; they are
given last first. -/
def makeOne (t : FileTree) (place : List String) : List String → Making
  | [] => .taken
  | last :: before =>
    match t.walk place before.reverse with
    | .error .notFound => .parentMissing
    | .error _ => .parentNotDirectory
    | .ok parent =>
      match t.entry? parent with
      | some .directory =>
        if last = ".." || (t.entry? (parent ++ [last])).isSome then .taken
        else .made (t.put (parent ++ [last]) .directory)
      | some (.file _) => .parentNotDirectory
      | none => .parentMissing

/-- What is left when directories were to be made: the files with the
directories that were made, and what the making came to grief over. -/
structure Attempt where
  files : FileTree
  mishap : Option Mishap := none

/-- What comes of an attempt to make the directory that a path leads to. One
that is there already will do. -/
def settle (t : FileTree) (cwd p : Path) : Making → Attempt
  | .made t' => ⟨t', none⟩
  | .taken =>
    ⟨t, if t.isDirectory cwd p then none else some (.fileExists p.text)⟩
  | .parentNotDirectory => ⟨t, some (.notDirectory p.text)⟩
  | .parentMissing => ⟨t, some (.notDirectory p.text)⟩

/-- Makes the directory that a path leads to, and those above it that are
missing. The ones made stay when a later one cannot be made. -/
def makeDirectories (t : FileTree) (cwd p : Path) : Attempt :=
  if p.parts = [] then ⟨t, none⟩
  else if p.holdsNull then ⟨t, some (.badPath .nullByte)⟩
  else
    match t.makeOne (start cwd p) p.parts.reverse with
    | .parentMissing =>
      let above := t.makeDirectories cwd p.parent
      if above.mishap.isSome then above
      else above.files.settle cwd p
        (above.files.makeOne (start cwd p) p.parts.reverse)
    | attempt => t.settle cwd p attempt
  termination_by p.parts.length
  decreasing_by
    rw [Path.parent, List.length_dropLast]
    exact Nat.sub_lt (List.length_pos_iff.2 ‹_›) Nat.one_pos

/-- Writes a file, over one that is there. Its directory has to exist. -/
def write (t : FileTree) (cwd p : Path) (text : String) :
    Except Mishap FileTree :=
  if p.holdsNull then .error (.badPath .nullByte)
  else
    match p.parts.reverse with
    | [] => .error (.isDirectory p.text)
    | last :: before =>
      match t.walk (start cwd p) before.reverse with
      | .error _ => .error (.notDirectory p.text)
      | .ok parent =>
        match t.entry? parent with
        | some .directory =>
          if last = ".."
              || t.entry? (parent ++ [last]) == some .directory then
            .error (.isDirectory p.text)
          else .ok (t.put (parent ++ [last]) (.file text))
        | _ => .error (.notDirectory p.text)

end FileTree

end GitPersona
