/-
The context of a working directory: the signals that can be observed
about it, taken together at one moment. Its signature is a digest of
all of them, computed from a text in which the entries of both maps
stand in key order.
-/
import GitPersona.Bindings
import GitPersona.Path
import GitPersona.Json.Quote
import GitPersona.Digest.Sha256
import GitPersona.Fault

namespace GitPersona

-- ============================================================== the snapshot

/-- The signals of a working directory. -/
structure Context where
  workingDir : Path
  /-- The fetch URL of each remote. -/
  remotes : Bindings := ∅
  /-- The repository's local git configuration. -/
  localConfig : Bindings := ∅
  hostname : String := "unknown"

namespace Context

/-- The address that the local configuration sets. -/
def currentEmail (c : Context) : Option String :=
  c.localConfig.get? "user.email"

/-- The user name that the local configuration sets. -/
def currentName (c : Context) : Option String :=
  c.localConfig.get? "user.name"

/-- The push URL of a remote, when it is set, not empty and not
the fetch URL. -/
def pushUrl? (c : Context) (name fetchUrl : String) : Option String :=
  match c.localConfig.get? ("remote." ++ name ++ ".pushurl") with
  | some url => if url = "" ∨ url = fetchUrl then none else some url
  | none => none

/-- Every URL with the name of its remote: by name, the fetch URL before
the push URL. -/
def remoteUrls (c : Context) : List (String × String) :=
  c.remotes.sorted.flatMap fun (name, url) =>
    match c.pushUrl? name url with
    | some push => [(name, url), (name, push)]
    | none => [(name, url)]

/-- The parent directories of the working directory, nearest first,
without the root. -/
def ancestors (c : Context) : List Path :=
  c.workingDir.ancestors

-- =============================================================== signature

/-- A list of pairs as an object of texts, in the given order. -/
def objectChars (es : List (String × String)) : List Char :=
  '{' :: [',', ' '].intercalate
    (es.map fun e => Json.ascii e.1.toList
      ++ ':' :: ' ' :: Json.ascii e.2.toList) ++ ['}']

/-- What the signature is computed from. -/
def payload (c : Context) : List Char :=
  let fields :=
    [("hostname", Json.ascii c.hostname.toList),
      ("local_config", objectChars c.localConfig.sorted),
      ("remotes", objectChars c.remotes.sorted),
      ("working_dir", Json.ascii c.workingDir.chars)]
  '{' :: [',', ' '].intercalate
    (fields.map fun f => Json.ascii f.1.toList ++ ':' :: ' ' :: f.2) ++ ['}']

/-- The digest of all signals. -/
def signature (c : Context) : String :=
  Digest.sha256Hex (Digest.utf8 c.payload)

end Context

-- ================================================================ extraction

/-- A way to look at the repository around a directory. -/
structure Repository where
  isInsideWorkTree : Path → Except Fault Bool
  remotes : Path → Except Fault Bindings
  localConfig : Path → Except Fault Bindings

/-- Where a program runs: the home directories that the system knows,
and the current directory as the system reports it. -/
structure Place where
  homes : Homes
  cwd : Path

/-- The canonical form of a path as a user writes it. -/
def Place.normalize (place : Place) (path : String) : Except Fault Path :=
  (Path.normalize place.homes place.cwd path).mapError Fault.ofDefect

/-- The host name to go by: the one that the system gives, "unknown" when
it gives none. -/
def hostnameOr (reported : Option String) : String :=
  match reported with
  | some name => if name = "" then "unknown" else name
  | none => "unknown"

namespace Context

/-- A repository reads the signals of a canonical directory. -/
def observe (repository : Repository) (hostname : String) (directory : Path) :
    Except Fault Context :=
  match repository.isInsideWorkTree directory with
  | .error f => .error (.inspectionFailed directory f.text)
  | .ok false => .error (.outsideRepository directory)
  | .ok true =>
    match repository.remotes directory, repository.localConfig directory with
    | .ok remotes, .ok localConfig =>
      .ok { workingDir := directory, remotes, localConfig, hostname }
    | .error f, _ => .error (.signalsUnreadable directory f.text)
    | .ok _, .error f => .error (.signalsUnreadable directory f.text)

/-- The context of the directory that a path names, the current one when
there is no path. -/
def extract (place : Place) (repository : Repository) (hostname : String)
    (path : Option String) : Except Fault Context := do
  let directory ← place.normalize (path.getD place.cwd.text)
  observe repository hostname directory

end Context

end GitPersona
