/-
Objects that are read. A reader meets the pairs of an object in order
and lets the last one for a key count, so no key of an object that was
read occurs twice (`textKeysOnce_of_read?`).
-/
import GitPersona.Json.Reader
import GitPersona.Proofs.Document

namespace GitPersona.Json

open Document (TextKeysOnce)

variable {cs rest : List Char} {es : List (Document × Document)}

theorem word?_ne_mapping : word? cs ≠ some (.mapping es, rest) := by
  intro h
  obtain ⟨w, hw, hsome⟩ := List.exists_of_findSome?_eq_some h
  obtain ⟨r, -, hr⟩ := Option.map_eq_some_iff.1 hsome
  have hvalue : w.2 = .mapping es := congrArg Prod.fst hr
  simp only [words, List.mem_cons, List.not_mem_nil, or_false] at hw
  rcases hw with rfl | rfl | rfl | rfl | rfl | rfl <;> cases hvalue

theorem unsigned?_ne_mapping {negative : Bool} :
    unsigned? negative cs ≠ some (.mapping es, rest) := by
  intro h
  unfold unsigned? at h
  dsimp only at h
  repeat' split at h
  all_goals cases h

theorem textKeysOnce_of_value? {fuel : Nat}
    (h : value? fuel cs = some (.mapping es, rest)) :
    TextKeysOnce es := by
  unfold value? at h
  split at h
  · cases h
  · split at h
    · -- a text
      obtain ⟨p, -, hp⟩ := Option.map_eq_some_iff.1 h
      cases hp
    · -- a list
      split at h
      · cases h
      · obtain ⟨p, -, hp⟩ := Option.map_eq_some_iff.1 h
        cases hp
    · -- an object
      split at h
      · cases h
        exact List.nodup_nil
      · obtain ⟨p, -, hp⟩ := Option.map_eq_some_iff.1 h
        cases hp
        exact Document.textKeysOnce_ofPairs _
    · -- a word or a number
      split at h
      · next hword =>
        cases h
        exact absurd hword word?_ne_mapping
      · split at h
        · exact absurd h unsigned?_ne_mapping
        · exact absurd h unsigned?_ne_mapping

theorem textKeysOnce_of_read? {s : String} (h : read? s = some (.mapping es)) :
    TextKeysOnce es := by
  unfold read? at h
  dsimp only at h
  split at h
  · next hvalue =>
    split at h
    · cases h
      exact textKeysOnce_of_value? hvalue
    · cases h
  · cases h

end GitPersona.Json
