/-
What the environment gives to a section. Each variable below a section
leads to a list of keys, and the one that leads to a key alone decides
what the key is given, whatever stands beside it (`keyVariables_spec`):
another variable either leads elsewhere or below a value that is no
mapping, where nothing is entered. Laid over the section's own variable,
and with its keys respelled, the key still has that value
(`lookup_fromEnvironment`), as long as the section's variable holds an
object that does not spell the key in capitals.
-/
import GitPersona.Settings.Environment
import GitPersona.Proofs.Attempt
import GitPersona.Proofs.Bindings
import GitPersona.Proofs.Json.Object
import GitPersona.Proofs.Text.Case

namespace GitPersona.Settings

open Document (lookupText TextKeysOnce)
open Text (Settled)

variable {part : Section} {key value : String} {fields fields' : Fields}

-- ================================================================== names

/-- The variable that leads to a key of a section. -/
def variableFor (part : Section) (key : String) : String :=
  variableOf part ++ "__" ++ key

/-- The names of an environment's variables are in the form that they are
compared in. -/
theorem settled_of_mem_lowered {env : Environment} {e : String × String}
    (h : e ∈ (lowered env).entries) : ∀ c ∈ e.1.toList, Settled c := by
  have hkey := Bindings.mem_keys_ofList (List.mem_map.2 ⟨e, h, rfl⟩)
  rw [List.map_map] at hkey
  obtain ⟨raw, -, hraw⟩ := List.mem_map.1 hkey
  intro c hc
  rw [← hraw] at hc
  exact Text.settled_of_mem_lowerAll (String.toList_ofList ▸ hc)

/-- Cutting a name leaves at least one piece. -/
theorem cut_ne_nil (cs : List Char) : cutAtDoubleUnderscore cs ≠ [] := by
  fun_cases cutAtDoubleUnderscore cs <;> simp

/-- A text that is cut into one piece is that piece. -/
theorem eq_of_cut_eq_singleton {cs piece : List Char}
    (h : cutAtDoubleUnderscore cs = [piece]) :
    cs = piece := by
  fun_induction cutAtDoubleUnderscore cs generalizing piece with
  | case1 r ih => exact absurd (List.cons.inj h).2 (cut_ne_nil r)
  | case2 c r _ first pieces hcut ih =>
      obtain ⟨rfl, rfl⟩ := List.cons.inj h
      rw [ih hcut]
  | case3 c r _ hcut ih => exact absurd hcut (cut_ne_nil r)
  | case4 => exact (List.cons.inj h).1

/-- The pieces of a text consist of its characters. -/
theorem mem_of_mem_cut {cs piece : List Char} {c : Char}
    (hpiece : piece ∈ cutAtDoubleUnderscore cs) (hc : c ∈ piece) : c ∈ cs := by
  fun_induction cutAtDoubleUnderscore cs generalizing piece with
  | case1 r ih =>
      rcases List.mem_cons.1 hpiece with rfl | hmem
      · cases hc
      · exact List.mem_cons_of_mem _ (List.mem_cons_of_mem _ (ih hmem hc))
  | case2 d r _ first pieces hcut ih =>
      rcases List.mem_cons.1 hpiece with rfl | hmem
      · rcases List.mem_cons.1 hc with rfl | hc'
        · exact List.mem_cons_self
        · exact List.mem_cons_of_mem _ (ih (hcut ▸ List.mem_cons_self) hc')
      · exact List.mem_cons_of_mem
          _ (ih (hcut ▸ List.mem_cons_of_mem _ hmem) hc)
  | case3 d r _ hcut ih => exact absurd hcut (cut_ne_nil r)
  | case4 =>
      rw [List.mem_singleton.1 hpiece] at hc
      cases hc

/-- A variable below a section has its name, two underscores and the keys. -/
theorem keysBelow?_eq_some {name : String} {keys : List String}
    (h : keysBelow? part name = some keys) :
    ∃ rest, name.toList = (variableOf part ++ "__").toList ++ rest
      ∧ keys = (cutAtDoubleUnderscore rest).map String.ofList := by
  unfold keysBelow? at h
  dsimp only at h
  split at h
  · next hlead =>
    obtain ⟨rest, hrest⟩ := List.isPrefixOf_iff_prefix.1 hlead
    refine ⟨rest, hrest.symm, ?_⟩
    rw [← hrest, List.drop_left] at h
    exact (Option.some.inj h).symm
  · cases h

/-- A key without a double underscore is led to by its own variable. -/
theorem keysBelow?_variableFor
    (hkey : cutAtDoubleUnderscore key.toList = [key.toList]) :
    keysBelow? part (variableFor part key) = some [key] := by
  have hname : (variableFor part key).toList = (variableOf part ++ "__").toList
      ++ key.toList :=
    String.toList_append ..
  unfold keysBelow?
  dsimp only
  rw [hname, if_pos (List.isPrefixOf_iff_prefix.2 (List.prefix_append _ _)),
    List.drop_left, hkey, List.map_singleton, String.ofList_toList]

/-- And by no other variable. -/
theorem eq_variableFor {name : String}
    (h : keysBelow? part name = some [key]) :
    name = variableFor part key := by
  obtain ⟨rest, hname, hkeys⟩ := keysBelow?_eq_some h
  obtain ⟨piece, hcut, hpiece⟩ := List.map_eq_singleton_iff.1 hkeys.symm
  rw [eq_of_cut_eq_singleton hcut] at hname
  rw [← String.toList_inj, hname,
    variableFor, String.toList_append (s := variableOf part ++ "__"), ← hpiece,
    String.toList_ofList]

-- ============================================================== one variable

/-- No text key occurs twice, and every key is a text that lowering
leaves alone. -/
structure Tidy (fields : Fields) : Prop where
  once : TextKeysOnce fields
  settled : ∀ e ∈ fields, ∃ t : String, e.1 = .text t
    ∧ ∀ c ∈ t.toList, Settled c

/-- No fields are tidy. -/
theorem tidy_nil : Tidy [] :=
  ⟨List.nodup_nil, fun _ he => absurd he List.not_mem_nil⟩

/-- Putting a field under a settled key leaves fields tidy. -/
theorem Tidy.put (h : Tidy fields) (hkey : ∀ c ∈ key.toList, Settled c)
    (d : Document) :
    Tidy (Document.put (.text key) d fields) := by
  refine ⟨h.once.put, fun e he => ?_⟩
  rcases Document.mem_put he with heq | ⟨u, hmem⟩
  · exact ⟨key, heq, hkey⟩
  · exact h.settled (e.1, u) hmem

/-- Putting a value under settled keys leaves fields tidy. -/
theorem Tidy.putAt (h : Tidy fields) {keys : List String}
    (hkeys : ∀ k ∈ keys, ∀ c ∈ k.toList, Settled c) (d : Document) :
    Tidy (putAt d keys fields) := by
  match keys with
  | [] => exact h
  | [key] => exact h.put (hkeys key List.mem_cons_self) d
  | key :: next :: keys =>
      rw [Settings.putAt]
      · split
        · exact h.put (hkeys key List.mem_cons_self) _
        · exact h.put (hkeys key List.mem_cons_self) _
        · exact h
      · simp

/-- What a variable that leads elsewhere, or further down, leaves alone. -/
theorem lookup_putAt {keys : List String} (d : Document) (hkeys : keys ≠ [key])
    (h : lookupText key fields = some (.text value)) :
    lookupText key (putAt d keys fields) = some (.text value) := by
  match keys with
  | [] => exact h
  | [k] =>
      have hk : k ≠ key := fun hk => hkeys (congrArg ([·]) hk)
      exact (Document.lookupText_put_of_ne (by simpa using hk)).trans h
  | k :: next :: keys =>
      rw [putAt]
      · split
        · next hnone =>
          have hk : k ≠ key := by
            rintro rfl
            rw [h] at hnone
            cases hnone
          exact (Document.lookupText_put_of_ne (by simpa using hk)).trans h
        · next hmapping =>
          have hk : k ≠ key := by
            rintro rfl
            rw [h] at hmapping
            cases hmapping
          exact (Document.lookupText_put_of_ne (by simpa using hk)).trans h
        · exact h
      · simp

/-- The fields of a section with what one variable gives to it. -/
def addVariable (part : Section) (fields : Fields) (e : String × String) :
    Except Mishap Fields :=
  match keysBelow? part e.1 with
  | none => .ok fields
  | some keys =>
    match valueAt? part keys e.2 with
    | some d => .ok (putAt d keys fields)
    | none => .error (.environmentUnreadable part)

/-- The variables below a section are added one by one. -/
theorem keyVariables_eq (env : Bindings) (part : Section) :
    keyVariables env part = env.entries.foldlM (addVariable part) [] :=
  rfl

/-- A variable adds a value under its keys, or nothing. -/
theorem addVariable_cases {e : String × String}
    (h : addVariable part fields e = .ok fields') :
    fields' = fields
      ∨ ∃ keys d, keysBelow? part e.1 = some keys
        ∧ fields' = putAt d keys fields := by
  unfold addVariable at h
  split at h
  · exact Or.inl (Except.ok.inj h).symm
  · next keys hkeys =>
    split at h
    · next d _ => exact Or.inr ⟨keys, d, hkeys, (Except.ok.inj h).symm⟩
    · cases h

/-- Adding a variable leaves fields tidy. -/
theorem Tidy.addVariable {e : String × String} (h : Tidy fields)
    (he : ∀ c ∈ e.1.toList, Settled c)
    (hadd : addVariable part fields e = .ok fields') :
    Tidy fields' := by
  rcases addVariable_cases hadd with rfl | ⟨keys, d, hkeys, rfl⟩
  · exact h
  · obtain ⟨rest, hname, rfl⟩ := keysBelow?_eq_some hkeys
    refine h.putAt (fun k hk c hc => ?_) d
    obtain ⟨piece, hpiece, rfl⟩ := List.mem_map.1 hk
    rw [String.toList_ofList] at hc
    exact he c (hname ▸ List.mem_append_right _ (mem_of_mem_cut hpiece hc))

/-- Adding another variable leaves a value as it is. -/
theorem lookup_addVariable_of_ne {e : String × String}
    (he : e.1 ≠ variableFor part key)
    (hadd : addVariable part fields e = .ok fields')
    (h : lookupText key fields = some (.text value)) :
    lookupText key fields' = some (.text value) := by
  rcases addVariable_cases hadd with rfl | ⟨keys, d, hkeys, rfl⟩
  · exact h
  · exact lookup_putAt d (fun hone => he (eq_variableFor (hone ▸ hkeys))) h

-- ============================================================ all variables

/-- What every variable keeps of the fields, all of them keep. -/
theorem foldlM_keeps {P : Fields → Prop} {es : List (String × String)}
    (hstep : ∀ e ∈ es, ∀ fs fs', P fs → addVariable part fs e = .ok fs' →
        P fs')
    (hfold : es.foldlM (addVariable part) fields = .ok fields')
    (h : P fields) : P fields' := by
  induction es generalizing fields with
  | nil =>
      cases hfold
      exact h
  | cons e es ih =>
      rw [List.foldlM_cons] at hfold
      obtain ⟨next, hadd, hrest⟩ := exists_of_bind_eq_ok hfold
      exact ih (fun e he => hstep e (List.mem_cons_of_mem _ he)) hrest
        (hstep e List.mem_cons_self fields next h hadd)

/-- The key of a section that holds a single value, not a list, and that is
written in ASCII letters and single underscores. -/
structure IsScalarKey (part : Section) (key : String) : Prop where
  known : key ∈ knownKeys part
  whole : cutAtDoubleUnderscore key.toList = [key.toList]
  single : holdsList part [key] = false
  ascii : ∀ c ∈ key.toList, c.toNat < 0x80
  lowerCase : lowerText key = key

/-- The variables give a key what its own variable holds. -/
theorem keyVariables_spec {env : Bindings}
    (hsettled : ∀ e ∈ env.entries, ∀ c ∈ e.1.toList, Settled c)
    (hkey : IsScalarKey part key)
    (hvalue : env.get? (variableFor part key) = some value)
    (h : keyVariables env part = .ok fields) :
    Tidy fields ∧ lookupText key fields = some (.text value) := by
  rw [keyVariables_eq] at h
  refine ⟨foldlM_keeps
    (fun e he _ _ htidy => htidy.addVariable (hsettled e he)) h tidy_nil, ?_⟩
  obtain ⟨before, after, hentries⟩ :=
    List.append_of_mem (Bindings.get?_eq_some_iff.1 hvalue)
  have hafter : ∀ e ∈ after, e.1 ≠ variableFor part key := by
    have hnodup := env.nodup
    rw [hentries, List.map_append, List.map_cons] at hnodup
    intro e he heq
    exact (List.nodup_cons.1 (List.nodup_append.1 hnodup).2.1).1
      (List.mem_map.2 ⟨e, he, heq⟩)
  rw [hentries, List.foldlM_append] at h
  obtain ⟨fs, -, hrest⟩ := exists_of_bind_eq_ok h
  rw [List.foldlM_cons] at hrest
  obtain ⟨fs', hown, hlast⟩ := exists_of_bind_eq_ok hrest
  refine foldlM_keeps (fun e he _ _ hlook hadd =>
    lookup_addVariable_of_ne (hafter e he) hadd hlook)
    hlast ?_
  have hat : valueAt? part [key] value = some (.text value) := by
    unfold valueAt?
    rw [hkey.single]
    rfl
  unfold addVariable at hown
  simp only [keysBelow?_variableFor hkey.whole, hat] at hown
  rw [← Except.ok.inj hown]
  exact Document.lookupText_put_self

-- ============================================================ respelling

/-- A key that comes to be spelled like a known one was that key, or the same
in other letters. -/
theorem knownSpelling_eq {k : Document}
    (h : knownSpelling part k = .text key) :
    ∃ t : String, k = .text t ∧ (lowerText t = key ∨ t = key) := by
  cases k with
  | text t =>
      refine ⟨t, rfl, ?_⟩
      have hkey := Document.text.inj h
      cases hfind : (knownKeys part).find? fun k => k == lowerText t with
      | none =>
          rw [hfind] at hkey
          exact Or.inr hkey
      | some k =>
          rw [hfind] at hkey
          have hsame := List.find?_some hfind
          exact Or.inl ((beq_iff_eq.1 hsame).symm.trans hkey)
  | _ => cases h

/-- A known key is spelled as it is. -/
theorem knownSpelling_known (hkey : IsScalarKey part key) :
    knownSpelling part (.text key) = .text key := by
  show Document.text
      (((knownKeys part).find? fun k => k == lowerText key).getD key) = _
  rw [hkey.lowerCase]
  cases hfind : (knownKeys part).find? fun k => k == key with
  | none => rfl
  | some k =>
      have hsame := List.find?_some hfind
      exact congrArg Document.text (beq_iff_eq.1 hsame)

/-- A key keeps its value where no other spelling of it stands beside it. -/
theorem lookup_respelled {d : Document} (hkey : IsScalarKey part key)
    (honce : TextKeysOnce fields)
    (hspelled : ∀ t u, (.text t, u) ∈ fields → lowerText t = key → t = key)
    (h : lookupText key fields = some d) :
    lookupText key (respelled part fields) = some d := by
  refine Document.lookupText_ofPairs ⟨d, ?_⟩ fun u hu => ?_
  · exact List.mem_map.2 ⟨_, Document.mem_of_lookupText h,
      congrArg (·, d) (knownSpelling_known hkey)⟩
  · obtain ⟨⟨k, w⟩, hmem, heq⟩ := List.mem_map.1 hu
    obtain ⟨hk, rfl⟩ := Prod.mk.inj heq
    obtain ⟨t, rfl, hlower | rfl⟩ := knownSpelling_eq hk
    · rw [hspelled t w hmem hlower] at hmem
      exact Option.some.inj ((honce.lookupText_eq hmem).symm.trans h)
    · exact Option.some.inj ((honce.lookupText_eq hmem).symm.trans h)

/-- Of tidy fields, one that differs from a key in the case of letters only
is that key. -/
theorem Tidy.spelled (h : Tidy fields) (hkey : IsScalarKey part key)
    {t : String} {u : Document}
    (hmem : (.text t, u) ∈ fields) (hlower : lowerText t = key) : t = key := by
  obtain ⟨t', ht, hsettled⟩ := h.settled _ hmem
  cases ht
  refine String.toList_inj.1 (Text.eq_of_lowerAll_eq hsettled hkey.ascii ?_)
  rw [← hlower, lowerText, String.toList_ofList]

-- ================================================================ sections

/-- The section's own variable, if there is one, holds an object in which the
key is spelled in no other letters. -/
def PlainSection (env : Bindings) (part : Section) (key : String) : Prop :=
  ∀ text, env.get? (variableOf part) = some text →
    ∃ below, Json.read? text = some (.mapping below)
      ∧ ∀ t u, (.text t, u) ∈ below → lowerText t = key → t = key

/-- The environment gives a key of a section what the key's own
variable holds. -/
theorem lookup_fromEnvironment {env : Bindings} {given : Option Document}
    (hsettled : ∀ e ∈ env.entries, ∀ c ∈ e.1.toList, Settled c)
    (hkey : IsScalarKey part key)
    (hvalue : env.get? (variableFor part key) = some value)
    (hsection : PlainSection env part key)
    (h : fromEnvironment env part = .ok given) :
    ∃ fields, given = some (.mapping fields)
      ∧ lookupText key fields = some (.text value) := by
  unfold fromEnvironment at h
  cases hown : env.get? (variableOf part) with
  | none =>
      rw [hown] at h
      obtain ⟨above, habove, hgiven⟩ := exists_of_bind_eq_ok h
      obtain ⟨htidy, hlook⟩ := keyVariables_spec hsettled hkey hvalue habove
      have hsome : above.isEmpty = false := by
        cases above with
        | nil => cases hlook
        | cons e above => rfl
      rw [hsome] at hgiven
      cases hgiven
      exact ⟨_, rfl, lookup_respelled hkey htidy.once
        (fun _ _ => htidy.spelled hkey) hlook⟩
  | some text =>
      obtain ⟨below, hread, hplain⟩ := hsection text hown
      simp only [hown, hread] at h
      obtain ⟨above, habove, hgiven⟩ := exists_of_bind_eq_ok h
      obtain ⟨htidy, hlook⟩ := keyVariables_spec hsettled hkey hvalue habove
      cases hgiven
      refine ⟨_, rfl, lookup_respelled hkey
        (Document.textKeysOnce_overlay (Json.textKeysOnce_of_read? hread)) ?_
          ?_⟩
      · intro t u hmem hlower
        rcases Document.mem_overlay hmem with ⟨w, hw⟩ | ⟨w, hw⟩
        · exact htidy.spelled hkey hw hlower
        · exact hplain t w hw hlower
      · have hpairs : lookupText key (Document.ofPairs above)
            = some (.text value) :=
          Document.lookupText_ofPairs ⟨_, Document.mem_of_lookupText hlook⟩
            fun u hu =>
            Option.some.inj ((htidy.once.lookupText_eq hu).symm.trans hlook)
        rw [Document.lookupText_overlay, hpairs, Option.some_or]

end GitPersona.Settings
