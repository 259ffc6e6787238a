/-
What reading and writing can do to a cache, each said once
(`get_cases`, `roomFor_cases`). A read only ever drops or moves entries; a
write adds the one that it is given, and with room for at least one
entry it cannot fail. Whatever holds of every entry is therefore kept by
both (`mem_of_get`, `set_spec`).
-/
import GitPersona.Cache

namespace GitPersona.Cache

variable {κ ν : Type} [DecidableEq κ] {c : Cache κ ν} {e : Entry κ ν}
    {now : Float} {key : κ}
  {value : ν}

-- =============================================================== entries

theorem mem_of_find? (h : c.find? key = some e) :
    e ∈ c.entries ∧ e.key = key := by
  unfold find? at h
  have hkey := List.find?_some h
  exact ⟨List.mem_of_find?_eq_some h, beq_iff_eq.1 hkey⟩

theorem mem_others_iff : e ∈ c.others key ↔ e ∈ c.entries ∧ e.key ≠ key := by
  unfold others
  rw [List.mem_filter, bne_iff_ne]

theorem find?_eq_none_iff :
    c.find? key = none ↔ ∀ e ∈ c.entries, e.key ≠ key := by
  unfold find?
  rw [List.find?_eq_none]
  exact forall₂_congr fun e _ => not_congr beq_iff_eq

theorem others_sublist (c : Cache κ ν) (key : κ) :
    (c.others key).Sublist c.entries :=
  List.filter_sublist

/-- Without the entry of a key there are fewer entries. -/
theorem length_others_lt (h : c.find? key = some e) :
    (c.others key).length < c.entries.length := by
  obtain ⟨hmem, hkey⟩ := mem_of_find? h
  refine Nat.lt_of_le_of_ne (c.others_sublist key).length_le fun hlength => ?_
  have hall := (c.others_sublist key).eq_of_length hlength
  exact (mem_others_iff.1 (hall ▸ hmem)).2 hkey

-- ================================================================= reads

/-- The ways a read can go: there is no entry, its time has come,
or it counts. -/
theorem get_cases (c : Cache κ ν) (now : Float) (key : κ) :
    (c.find? key = none ∧ c.get now key = (none, c))
      ∨ (∃ e, c.find? key = some e ∧ e.expiresAt ≤ now
          ∧ c.get now key = (none, { c with entries := c.others key }))
      ∨ ∃ e, c.find? key = some e ∧ ¬e.expiresAt ≤ now
          ∧ c.get now key = (some e.value,
            { c with entries := c.others key ++ [e] }) := by
  unfold get
  cases hfind : c.find? key with
  | none => exact Or.inl ⟨rfl, rfl⟩
  | some e =>
      refine Or.inr ?_
      by_cases hdue : e.expiresAt ≤ now
      · exact Or.inl ⟨e, rfl, hdue, if_pos hdue⟩
      · exact Or.inr ⟨e, rfl, hdue, if_neg hdue⟩

/-- A value that is read is the value of an entry that is not due. -/
theorem exists_of_get (h : (c.get now key).1 = some value) :
    ∃ e ∈ c.entries, e.key = key ∧ e.value = value ∧ ¬e.expiresAt ≤ now := by
  rcases get_cases c now key with
    ⟨-, hget⟩ | ⟨e, -, -, hget⟩ | ⟨e, hfind, hdue, hget⟩
  · rw [hget] at h
    cases h
  · rw [hget] at h
    cases h
  · rw [hget] at h
    obtain ⟨hmem, hkey⟩ := mem_of_find? hfind
    exact ⟨e, hmem, hkey, Option.some.inj h, hdue⟩

/-- A read brings no entry. -/
theorem mem_of_get (h : e ∈ (c.get now key).2.entries) : e ∈ c.entries := by
  rcases get_cases c now key with
    ⟨-, hget⟩ | ⟨e', -, -, hget⟩ | ⟨e', hfind, -, hget⟩
  · rw [hget] at h
    exact h
  · rw [hget] at h
    exact (mem_others_iff.1 h).1
  · rw [hget] at h
    rcases List.mem_append.1 h with hmem | hmem
    · exact (mem_others_iff.1 hmem).1
    · rw [List.mem_singleton.1 hmem]
      exact (mem_of_find? hfind).1

theorem capacity_get (c : Cache κ ν) (now : Float) (key : κ) :
    (c.get now key).2.capacity = c.capacity := by
  rcases get_cases c now key with ⟨-, hget⟩ | ⟨e, -, -, hget⟩ | ⟨e, -, -, hget⟩
  · rw [hget]
  · rw [hget]
  · rw [hget]

-- ================================================================ writes

/-- The ways room can be made: the key's own entry goes, nothing has to go, or
the least recent entry goes from a full cache. -/
theorem roomFor_cases (c : Cache κ ν) (key : κ) (hcap : 1 ≤ c.capacity) :
    (∃ e, c.find? key = some e ∧ c.roomFor key = .ok (c.others key))
      ∨ (c.find? key = none ∧ c.entries.length < c.capacity
        ∧ c.roomFor key = .ok c.entries)
      ∨ ∃ first rest, c.find? key = none ∧ c.capacity ≤ c.entries.length
          ∧ c.entries = first :: rest ∧ c.roomFor key = .ok rest := by
  unfold roomFor
  cases hfind : c.find? key with
  | some e => exact Or.inl ⟨e, rfl, rfl⟩
  | none =>
      refine Or.inr ?_
      by_cases hfull : c.entries.length ≥ c.capacity
      · cases hentries : c.entries with
        | nil =>
            rw [hentries, List.length_nil] at hfull
            omega
        | cons first rest =>
            rw [hentries] at hfull
            exact Or.inr ⟨first, rest, rfl, hfull, rfl, if_pos hfull⟩
      · exact Or.inl ⟨rfl, Int.not_le.1 hfull, if_neg hfull⟩

/-- Room is made by dropping entries, that of the key among them, and there is
always room for one. -/
theorem roomFor_spec (c : Cache κ ν) (key : κ) (hcap : 1 ≤ c.capacity) :
    ∃ entries, c.roomFor key = .ok entries ∧ ∀ e ∈ entries, e ∈ c.entries
      ∧ e.key ≠ key := by
  rcases c.roomFor_cases key hcap with ⟨e, -, hroom⟩ | ⟨hnew, -, hroom⟩
    | ⟨first, rest, hnew, -, hentries, hroom⟩
  · exact ⟨_, hroom, fun e he => mem_others_iff.1 he⟩
  · exact ⟨_, hroom, fun e he => ⟨he, find?_eq_none_iff.1 hnew e he⟩⟩
  · refine ⟨rest, hroom, fun e he => ?_⟩
    have hmem : e ∈ c.entries := hentries ▸ List.mem_cons_of_mem _ he
    exact ⟨hmem, find?_eq_none_iff.1 hnew e hmem⟩

/-- A write into a cache with room for an entry succeeds. The entry that it
writes is the one that is found from then on, and it brings no other. -/
theorem set_spec (hcap : 1 ≤ c.capacity) (now : Float) (key : κ) (value : ν)
    (lifetime : Option Float) :
    ∃ c', c.set now key value lifetime = .ok c' ∧ c'.capacity = c.capacity
      ∧ c'.find? key = some ⟨key, now + lifetime.getD c.lifetime, value⟩
      ∧ ∀ e ∈ c'.entries, e ∈ c.entries
        ∨ e = ⟨key, now + lifetime.getD c.lifetime, value⟩ := by
  obtain ⟨entries, hroom, hsub⟩ := c.roomFor_spec key hcap
  unfold set
  rw [hroom]
  refine ⟨_, rfl, rfl, ?_, fun e he => ?_⟩
  · unfold find?
    have hnone : entries.find? (·.key == key) = none :=
      List.find?_eq_none.2 fun e he => by simpa using (hsub e he).2
    rw [List.find?_append, hnone, List.find?_cons_of_pos (by simp)]
    rfl
  · rcases List.mem_append.1 he with hmem | hmem
    · exact Or.inl (hsub e hmem).1
    · exact Or.inr (List.mem_singleton.1 hmem)

end GitPersona.Cache
