/-
A store of profiles: a fixed list, in which a profile is found by its
exact name.
-/
import GitPersona.Profile
import GitPersona.Fault

namespace GitPersona

/-- A fixed list of profiles. -/
structure Store where
  profiles : List Profile

namespace Store

/-- The names of the profiles, in order. -/
def names (s : Store) : List String :=
  s.profiles.map (·.name)

/-- The first profile of a name. -/
def find (s : Store) (name : String) : Except Fault Profile :=
  match s.profiles.find? (·.name == name) with
  | some p => .ok p
  | none => .error (.profileUnknown name s.names)

end Store

end GitPersona
