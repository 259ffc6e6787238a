/-
Maps from texts to texts, as a list of pairs in the order in which the
keys first came. No key occurs twice, which the type carries.
-/

namespace GitPersona

/-- A finite map of texts. -/
structure Bindings where
  /-- The pairs, in insertion order. -/
  entries : List (String × String)
  /-- No key occurs twice. -/
  nodup : (entries.map Prod.fst).Nodup

namespace Bindings

-- =============================================================== operations

/-- The map without keys. -/
def empty : Bindings :=
  ⟨[], List.nodup_nil⟩

instance : EmptyCollection Bindings := ⟨empty⟩

instance : Inhabited Bindings := ⟨empty⟩

/-- The value of a key. -/
def get? (b : Bindings) (key : String) : Option String :=
  b.entries.lookup key

/-- Writes a value into a list of pairs: in place when the key is there, at the
end when not. -/
def put (key value : String) : List (String × String) → List (String × String)
  | [] => [(key, value)]
  | (k, v) :: rest =>
    if k = key then (k, value) :: rest else (k, v) :: put key value rest

/-- Writing adds at most the written key. -/
theorem mem_keys_put {key value k : String} {es : List (String × String)}
    (h : k ∈ (put key value es).map Prod.fst) :
    k = key ∨ k ∈ es.map Prod.fst := by
  induction es with
  | nil => exact Or.inl (List.mem_singleton.1 h)
  | cons e es ih =>
    unfold put at h
    split at h
    · exact Or.inr h
    · rw [List.map_cons] at h ⊢
      rcases List.mem_cons.1 h with hk | hk
      · exact Or.inr (hk ▸ List.mem_cons_self)
      · exact (ih hk).imp_right (List.mem_cons_of_mem _)

/-- Writing keeps the keys distinct. -/
theorem nodup_put {key value : String} {es : List (String × String)}
    (h : (es.map Prod.fst).Nodup) :
    ((put key value es).map Prod.fst).Nodup := by
  induction es with
  | nil => exact List.nodup_cons.2 ⟨List.not_mem_nil, List.nodup_nil⟩
  | cons e es ih =>
    rw [List.map_cons] at h
    obtain ⟨hnot, hes⟩ := List.nodup_cons.1 h
    unfold put
    split
    · exact h
    · next hne =>
      rw [List.map_cons]
      refine List.nodup_cons.2 ⟨fun hmem => ?_, ih hes⟩
      rcases mem_keys_put hmem with hk | hk
      · exact hne hk
      · exact hnot hk

/-- Sets the value of a key. -/
def insert (b : Bindings) (key value : String) : Bindings :=
  ⟨put key value b.entries, nodup_put b.nodup⟩

/-- The map that a list of pairs describes: of several pairs for a key the
last one counts. -/
def ofList (es : List (String × String)) : Bindings :=
  es.foldl (fun b e => b.insert e.1 e.2) empty

/-- The pairs, by key ascending. -/
def sorted (b : Bindings) : List (String × String) :=
  b.entries.mergeSort fun x y => decide (x.1 ≤ y.1)

end Bindings

end GitPersona
