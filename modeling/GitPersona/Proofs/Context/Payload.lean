/-
What a context's signature is computed from tells apart everything that
can be observed about the context, and nothing else: the directory, the
host name, and what both maps map (`payload_canonical`). Equal payloads
are taken apart as objects (`Proofs/Json/Members.lean`), the directory
is read back from its text (`Proofs/Path/Text.lean`), and the order in
which the keys came is lost because each map is written in key order
(`Proofs/Bindings.lean`).
-/
import GitPersona.Context
import GitPersona.Proofs.Bindings
import GitPersona.Proofs.Json.Members
import GitPersona.Proofs.Path.Text

namespace GitPersona.Context

open Json (Delimited)

-- ================================================================ values

theorem delimited_ascii {close : Char} (cs ds : List Char) :
    Delimited close (Json.ascii cs) (Json.ascii ds) := by
  intro r r' _ _ h
  obtain ⟨rfl, rfl⟩ := Json.ascii_append_inj h
  exact ⟨rfl, rfl⟩

theorem ascii_injective {cs ds : List Char}
    (h : Json.ascii cs = Json.ascii ds) : cs = ds :=
  (Json.ascii_append_inj (r := []) (congrArg (· ++ []) h)).1

/-- A pair as a field of an object. -/
private def fieldOf (e : String × String) : String × List Char :=
  (e.1, Json.ascii e.2.toList)

private theorem fieldOf_injective {e e' : String × String}
    (h : fieldOf e = fieldOf e') :
    e = e' := by
  obtain ⟨hkey, hvalue⟩ := Prod.mk.inj h
  exact Prod.ext hkey (String.toList_inj.1 (ascii_injective hvalue))

/-- Texts that start with an object of texts agree only pair by pair. -/
theorem objectChars_append_inj {es es' : List (String × String)}
    {r r' : List Char}
    (h : objectChars es ++ r = objectChars es' ++ r') : es = es' ∧ r = r' := by
  have hdelimited : ∀ p ∈ (es.map fieldOf).zip (es'.map fieldOf),
      Delimited '}' p.1.2 p.2.2 := by
    intro p hp
    rw [List.zip_map] at hp
    obtain ⟨⟨e, e'⟩, -, rfl⟩ := List.mem_map.1 hp
    exact delimited_ascii _ _
  have hbody : [',', ' '].intercalate
        ((es.map fieldOf).map fun f => Json.ascii f.1.toList
          ++ ([':', ' '] ++ f.2)) ++ '}' :: r
      = [',', ' '].intercalate
        ((es'.map fieldOf).map fun f => Json.ascii f.1.toList
          ++ ([':', ' '] ++ f.2)) ++ '}' :: r' := by
    simpa [objectChars, fieldOf, Function.comp_def] using h
  obtain ⟨hfields, rfl⟩ :=
    Json.fields_append_inj (fun _ => rfl) Json.ascii_append_inj hdelimited
      hbody
  exact ⟨List.map_injective_iff.2 (fun _ _ => fieldOf_injective) hfields, rfl⟩

theorem delimited_objectChars {close : Char}
    (es es' : List (String × String)) :
    Delimited close (objectChars es) (objectChars es') := by
  intro r r' _ _ h
  obtain ⟨rfl, rfl⟩ := objectChars_append_inj h
  exact ⟨rfl, rfl⟩

theorem objectChars_injective {es es' : List (String × String)}
    (h : objectChars es = objectChars es') : es = es' :=
  (objectChars_append_inj (r := []) (congrArg (· ++ []) h)).1

-- =============================================================== payload

/-- The signals of a context as the fields of its payload. -/
private def payloadFields (c : Context) : List (String × List Char) :=
  [("hostname", Json.ascii c.hostname.toList),
    ("local_config", objectChars c.localConfig.sorted),
    ("remotes", objectChars c.remotes.sorted),
    ("working_dir", Json.ascii c.workingDir.chars)]

private theorem delimited_payloadFields (c d : Context) :
    ∀ p ∈ (payloadFields c).zip (payloadFields d),
      Delimited '}' p.1.2 p.2.2 := by
  simp only [payloadFields, List.zip_cons_cons, List.zip_nil_left,
    List.forall_mem_cons, List.not_mem_nil, false_implies, implies_true,
    and_true, delimited_ascii, delimited_objectChars]

/-- Contexts with one payload are alike in every signal. -/
theorem eq_of_payload_eq {c d : Context} (h : c.payload = d.payload) :
    c.workingDir = d.workingDir ∧ c.hostname = d.hostname
      ∧ c.remotes.sorted = d.remotes.sorted
      ∧ c.localConfig.sorted = d.localConfig.sorted := by
  have hbody : [',', ' '].intercalate
        ((payloadFields c).map fun f => Json.ascii f.1.toList
          ++ ([':', ' '] ++ f.2)) ++ '}' :: []
      = [',', ' '].intercalate
        ((payloadFields d).map fun f => Json.ascii f.1.toList
          ++ ([':', ' '] ++ f.2)) ++ '}' :: [] :=
    (List.cons.inj h).2
  obtain ⟨hfields, -⟩ :=
    Json.fields_append_inj (fun _ => rfl) Json.ascii_append_inj
    (delimited_payloadFields c d) hbody
  simp only [payloadFields, List.cons.injEq, Prod.mk.injEq, true_and, and_true]
    at hfields
  obtain ⟨hhost, hconfig, hremotes, hdir⟩ := hfields
  exact ⟨Path.chars_injective (ascii_injective hdir),
    String.toList_inj.1 (ascii_injective hhost),
    objectChars_injective hremotes, objectChars_injective hconfig⟩

/-- Contexts alike in every signal have one payload. -/
theorem payload_eq_of_sorted {c d : Context}
    (hdir : c.workingDir.text = d.workingDir.text)
    (hhost : c.hostname = d.hostname)
    (hremotes : c.remotes.sorted = d.remotes.sorted)
    (hconfig : c.localConfig.sorted = d.localConfig.sorted) :
    c.payload = d.payload := by
  have hchars : c.workingDir.chars = d.workingDir.chars :=
    String.ofList_injective hdir
  unfold payload
  rw [hchars, hhost, hremotes, hconfig]

/-- Two contexts have one payload exactly when their directories are written
alike, their host names are equal, and both maps map alike; the order in which
a map was filled does not show. -/
theorem payload_canonical (c d : Context) :
    (c.payload = d.payload ↔
      c.workingDir.text = d.workingDir.text ∧ c.hostname = d.hostname
        ∧ (∀ name, c.remotes.get? name = d.remotes.get? name)
        ∧ ∀ key, c.localConfig.get? key = d.localConfig.get? key)
      ∧ ∀ remotes localConfig : Bindings,
        remotes.entries.Perm c.remotes.entries →
          localConfig.entries.Perm c.localConfig.entries →
          { c with remotes, localConfig }.payload = c.payload := by
  refine ⟨⟨?_, ?_⟩, ?_⟩
  · intro h
    obtain ⟨hdir, hhost, hremotes, hconfig⟩ := eq_of_payload_eq h
    exact ⟨congrArg Path.text hdir, hhost, Bindings.sorted_eq_iff.1 hremotes,
      Bindings.sorted_eq_iff.1 hconfig⟩
  · rintro ⟨hdir, hhost, hremotes, hconfig⟩
    exact payload_eq_of_sorted hdir hhost (Bindings.sorted_eq_iff.2 hremotes)
      (Bindings.sorted_eq_iff.2 hconfig)
  · intro remotes localConfig hremotes hconfig
    exact payload_eq_of_sorted rfl rfl (Bindings.sorted_eq_of_perm hremotes)
      (Bindings.sorted_eq_of_perm hconfig)

/-- Remotes that came in the other order. -/
theorem payload_of_swapped_remotes :
    (Bindings.ofList [("upstream", "b"), ("origin", "a")]).entries.Perm
        (Bindings.ofList [("origin", "a"), ("upstream", "b")]).entries
      ∧ Context.payload
          { workingDir := .root,
            remotes := .ofList [("upstream", "b"), ("origin", "a")] }
        = Context.payload
          { workingDir := .root,
            remotes := .ofList [("origin", "a"), ("upstream", "b")] } := by
  have hperm :
      (Bindings.ofList [("upstream", "b"), ("origin", "a")]).entries.Perm
      (Bindings.ofList [("origin", "a"), ("upstream", "b")]).entries := by
    decide
  exact ⟨hperm, (payload_canonical
    { workingDir := .root,
      remotes := .ofList [("origin", "a"), ("upstream", "b")] }
    { workingDir := .root }).2 _ _ hperm (List.Perm.refl _)⟩

end GitPersona.Context
