/-
Identity profiles and the lists that hold them. A profile bundles the
name, address and signing setup that a repository is to use with the
patterns that say where it belongs. Its compact form lists every field
in declaration order, so that two profiles with one compact form are
equal.
-/
import GitPersona.Json.Quote
import GitPersona.Digest.Sha256

namespace GitPersona

-- ================================================================= profiles

/-- How commits are signed. -/
inductive KeyType
  | ssh
  | gpg
  | x509
  | gitsign
  deriving DecidableEq, Repr

/-- The git configuration that a profile is applied to. -/
inductive Scope
  | repository
  | user
  | machine
  deriving DecidableEq, Repr

/-- The name of a key type. -/
def KeyType.name : KeyType → String
  | .ssh => "ssh"
  | .gpg => "gpg"
  | .x509 => "x509"
  | .gitsign => "gitsign"

/-- The name of a scope. -/
def Scope.name : Scope → String
  | .repository => "local"
  | .user => "global"
  | .machine => "system"

/-- Every key type. -/
def KeyType.all : List KeyType :=
  [.ssh, .gpg, .x509, .gitsign]

/-- Every scope. -/
def Scope.all : List Scope :=
  [.repository, .user, .machine]

/-- A named git identity. -/
structure Profile where
  name : String
  userName : Option String := none
  email : String
  keyType : KeyType := .ssh
  signingKey : Option String := none
  vaultName : Option String := none
  sshKeyTitle : Option String := none
  scope : Scope := .repository
  /-- Globs for remote URLs. -/
  repos : List String := []
  /-- Globs for working directories. -/
  matchPatterns : List String := []
  /-- Directories whose subtrees belong to the profile. -/
  includeIfDirs : List String := []
  /-- Globs for host names. -/
  hostPatterns : List String := []
  onePassword : Bool := false
  deriving DecidableEq, Repr

namespace Profile

/-- The name to show: the user name when it is set and not empty. -/
def displayName (p : Profile) : String :=
  match p.userName with
  | some n => if n = "" then p.name else n
  | none => p.name

-- ============================================================ compact form

/-- A text in compact form. -/
def compactText (s : String) : List Char :=
  Json.plain s.toList

/-- An optional text in compact form. -/
def compactOption : Option String → List Char
  | some s => compactText s
  | none => "null".toList

/-- A list of texts in compact form. -/
def compactList (ss : List String) : List Char :=
  '[' :: [','].intercalate (ss.map compactText) ++ [']']

/-- A truth value in compact form. -/
def compactBool (b : Bool) : List Char :=
  if b then "true".toList else "false".toList

/-- The fields with their values in compact form, in declaration order. -/
def compactFields (p : Profile) : List (String × List Char) :=
  [("name", compactText p.name),
    ("git_user_name", compactOption p.userName),
    ("git_user_email", compactText p.email),
    ("key_type", compactText p.keyType.name),
    ("signing_key", compactOption p.signingKey),
    ("vault_name", compactOption p.vaultName),
    ("ssh_key_title", compactOption p.sshKeyTitle),
    ("scope", compactText p.scope.name),
    ("repos", compactList p.repos),
    ("match_patterns", compactList p.matchPatterns),
    ("include_if_dirs", compactList p.includeIfDirs),
    ("host_patterns", compactList p.hostPatterns),
    ("one_password", compactBool p.onePassword)]

/-- An object in compact form. -/
def compactObject (fields : List (String × List Char)) : List Char :=
  '{' :: [','].intercalate (fields.map fun f => compactText f.1 ++ ':' :: f.2)
    ++ ['}']

/-- The compact form of a profile. -/
def compact (p : Profile) : List Char :=
  compactObject p.compactFields

/-- What the signature of a list of profiles is computed from: each compact
form, then a NUL. -/
def listPayload (ps : List Profile) : List Char :=
  ps.flatMap fun p => p.compact ++ [Char.ofNat 0]

/-- The signature of a list of profiles; it changes whenever a profile does. -/
def listSignature (ps : List Profile) : String :=
  Digest.sha256Hex (Digest.utf8 (listPayload ps))

end Profile

end GitPersona
