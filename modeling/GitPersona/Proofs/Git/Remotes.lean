/-
The remotes of a configuration. There is one for each key that has a
name between `remote.` and `.url`; its URL is the value of that key
(`remotesOf_named`). Written back as keys, the remotes are the entries
of the configuration that name one, each once and in their order.

# Both marks of a key

The two marks are looked for separately, so that a short key may have
them on the same characters, as `remote.url` has. Nothing stands between
them then. Where something does, the key is the first mark, the name and
the second mark (`eq_append_of_marks`), whatever the name looks like. A
key therefore names at most one remote and a remote is named by one key
(`remoteName?_eq_some_iff`), and no remote takes the place of another.
-/
import GitPersona.Git
import GitPersona.Proofs.Bindings
import Mathlib.Data.List.Nodup

namespace GitPersona

-- ================================================== statement vocabulary

/-- The key that sets the URL of a remote. -/
def urlKey (name : String) : String :=
  "remote." ++ name ++ ".url"

/-- A key that has no name where the name of a remote would stand. -/
def Nameless (key : String) : Prop :=
  ∀ name, key = urlKey name → name = ""

-- ================================================================== keys

variable {key name url : String} {config : Bindings}

theorem toList_urlKey (name : String) :
    (urlKey name).toList = "remote.".toList ++ name.toList
      ++ ".url".toList := by
  simp [urlKey]

/-- Different remotes have different keys. -/
theorem urlKey_injective {name name' : String}
    (h : urlKey name = urlKey name') :
    name = name' := by
  have hchars := congrArg String.toList h
  rw [toList_urlKey, toList_urlKey] at hchars
  exact String.toList_inj.1
    (List.append_cancel_left (List.append_cancel_right hchars))

/-- What stands between two marks that do not overlap. -/
theorem eq_append_of_marks {lead trail middle cs : List Char}
    (hlead : lead <+: cs)
    (htrail : trail <:+ cs)
    (hmiddle : (cs.take (cs.length - trail.length)).drop lead.length = middle)
    (hne : middle ≠ []) : cs = lead ++ middle ++ trail := by
  obtain ⟨stem, rfl⟩ := htrail
  rw [List.length_append, Nat.add_sub_cancel, List.take_left] at hmiddle
  have hlong : lead.length ≤ stem.length := by
    by_contra hshort
    rw [List.drop_eq_nil_of_le (by omega)] at hmiddle
    exact hne hmiddle.symm
  obtain ⟨rest, rfl⟩ :=
    List.prefix_of_prefix_length_le hlead (List.prefix_append _ _) hlong
  rw [List.drop_left] at hmiddle
  rw [hmiddle]

/-- What stands between two marks is found by cutting them off. -/
theorem middle_of_marks (lead middle trail : List Char) :
    ((lead ++ middle ++ trail).take
      ((lead ++ middle ++ trail).length - trail.length)).drop
      lead.length = middle := by
  rw [List.length_append, Nat.add_sub_cancel, List.take_left, List.drop_left]

/-- A key names a remote exactly when it is that remote's key. -/
theorem remoteName?_eq_some_iff :
    remoteName? key = some name ↔ name ≠ "" ∧ key = urlKey name := by
  unfold remoteName?
  simp only [Bool.and_eq_true, Bool.not_eq_true', List.isPrefixOf_iff_prefix,
    List.isSuffixOf_iff_suffix, Option.ite_none_right_eq_some,
    Option.some.injEq]
  constructor
  · intro h
    obtain ⟨⟨⟨hlead, htrail⟩, hsome⟩, hname⟩ := h
    have hmiddle : (key.toList.take (key.toList.length - 4)).drop 7
        = name.toList := by
      rw [← hname, String.toList_ofList]
    have hne : name.toList ≠ [] := by
      rw [← hmiddle]
      exact List.isEmpty_eq_false_iff.1 hsome
    have hkey := eq_append_of_marks hlead htrail hmiddle hne
    rw [← toList_urlKey] at hkey
    exact ⟨by simpa using hne, String.toList_inj.1 hkey⟩
  · intro h
    obtain ⟨hne, rfl⟩ := h
    have hmiddle := middle_of_marks "remote.".toList name.toList ".url".toList
    rw [← toList_urlKey] at hmiddle
    have hname :
        ((urlKey name).toList.take ((urlKey name).toList.length - 4)).drop 7
        = name.toList := hmiddle
    rw [hname]
    refine ⟨⟨⟨?_, ?_⟩, ?_⟩, String.ofList_toList⟩
    · rw [toList_urlKey, List.append_assoc]
      exact List.prefix_append _ _
    · rw [toList_urlKey]
      exact List.suffix_append _ _
    · simpa using hne

/-- Only the nameless keys have no name. -/
theorem remoteName?_eq_none_iff : remoteName? key = none ↔ Nameless key := by
  rw [Option.eq_none_iff_forall_ne_some]
  constructor
  · intro h name hkey
    by_contra hne
    exact h name (remoteName?_eq_some_iff.2 ⟨hne, hkey⟩)
  · intro h name hname
    obtain ⟨hne, hkey⟩ := remoteName?_eq_some_iff.1 hname
    exact hne (h name hkey)

-- ============================================================ nameless keys

/-- The two marks need a key of eleven characters. -/
theorem nameless_of_length (h : key.length < 11) : Nameless key := by
  intro name hkey
  have hlength : (urlKey name).length = 7 + name.length + 4 := by
    unfold urlKey
    rw [String.length_append, String.length_append]
    rfl
  rw [hkey, hlength] at h
  omega

/-- The key for an empty name is nameless. -/
theorem nameless_empty : Nameless (urlKey "") := by
  intro name hkey
  exact (urlKey_injective hkey).symm

/-- A key that ends in another word names no remote. -/
theorem nameless_pushurl (name : String) :
    Nameless ("remote." ++ name ++ ".pushurl") := by
  intro other hkey
  have htrail : ".url".toList <:+
      ("remote." ++ name ++ ".pushurl").toList := by
    rw [hkey, toList_urlKey]
    exact List.suffix_append _ _
  have hend : ".pushurl".toList <:+
      ("remote." ++ name ++ ".pushurl").toList := by
    rw [String.toList_append]
    exact List.suffix_append _ _
  have hnested := List.suffix_of_suffix_length_le htrail hend (by decide)
  exact absurd hnested (by decide)

-- ================================================================== remotes

/-- The remote that an entry of a configuration names. -/
def remoteEntry (e : String × String) : Option (String × String) :=
  (remoteName? e.1).map fun name => (name, e.2)

/-- A pair gives a remote when its key is one for a name. -/
theorem remoteEntry_eq_some_iff {e r : String × String} :
    remoteEntry e = some r ↔ r.1 ≠ "" ∧ e = (urlKey r.1, r.2) := by
  obtain ⟨key, value⟩ := e
  obtain ⟨name, url⟩ := r
  unfold remoteEntry
  simp only [Option.map_eq_some_iff, Prod.mk.injEq]
  constructor
  · intro h
    obtain ⟨_, hname, rfl, hvalue⟩ := h
    obtain ⟨hne, hkey⟩ := remoteName?_eq_some_iff.1 hname
    exact ⟨hne, hkey, hvalue⟩
  · intro h
    obtain ⟨hne, hkey, hvalue⟩ := h
    exact ⟨name, remoteName?_eq_some_iff.2 ⟨hne, hkey⟩, rfl, hvalue⟩

/-- Written back as keys, the named remotes are entries of the configuration,
in their order. -/
theorem sublist_remoteEntries (es : List (String × String)) :
    ((es.filterMap remoteEntry).map fun r => (urlKey r.1, r.2)).Sublist
      es := by
  induction es with
  | nil => exact List.Sublist.refl _
  | cons e es ih =>
      cases hremote : remoteEntry e with
      | none =>
          rw [List.filterMap_cons_none hremote]
          exact ih.cons e
      | some r =>
          rw [List.filterMap_cons_some hremote, List.map_cons,
            ← (remoteEntry_eq_some_iff.1 hremote).2]
          exact ih.cons_cons e

/-- No two entries name one remote, as no two have one key. -/
theorem nodup_remoteEntries (config : Bindings) :
    ((config.entries.filterMap remoteEntry).map Prod.fst).Nodup := by
  have hkeys := config.nodup.sublist
    ((sublist_remoteEntries config.entries).map Prod.fst)
  rw [List.map_map] at hkeys
  refine List.Nodup.of_map urlKey ?_
  rw [List.map_map]
  exact hkeys

/-- The remotes stand in the order of their keys in the configuration. -/
theorem entries_remotesOf (config : Bindings) :
    (remotesOf config).entries = config.entries.filterMap remoteEntry :=
  Bindings.entries_ofList (nodup_remoteEntries config)

/-- A remote has the address that its key has. -/
theorem get?_remotesOf_eq_some_iff : (remotesOf config).get? name = some url ↔
    name ≠ "" ∧ config.get? (urlKey name) = some url := by
  rw [Bindings.get?_eq_some_iff, entries_remotesOf, List.mem_filterMap,
    Bindings.get?_eq_some_iff]
  simp only [remoteEntry_eq_some_iff]
  constructor
  · intro h
    obtain ⟨_, hmem, hne, rfl⟩ := h
    exact ⟨hne, hmem⟩
  · intro h
    obtain ⟨hne, hmem⟩ := h
    exact ⟨_, hmem, hne, rfl⟩

/-- A key without a name may be set to anything. -/
theorem remotesOf_insert (h : Nameless key) (value : String) :
    remotesOf (config.insert key value) = remotesOf config := by
  have hpassed : ∀ v, remoteEntry (key, v) = none := by
    intro v
    unfold remoteEntry
    rw [remoteName?_eq_none_iff.2 h]
    rfl
  exact congrArg Bindings.ofList (Bindings.filterMap_put hpassed)

/-- The remotes are exactly the nonempty names that a configuration has a key
for, each with the value of that key; entries stay apart and in order, and keys
without a name do not count. -/
theorem remotesOf_named (config : Bindings) :
    (∀ name url, (remotesOf config).get? name = some url ↔
      name ≠ "" ∧ config.get? (urlKey name) = some url)
    ∧ ((remotesOf config).entries.map fun r => (urlKey r.1, r.2)).Sublist
      config.entries
    ∧ (∀ key, Nameless key → ∀ value,
      remotesOf (config.insert key value) = remotesOf config)
    ∧ Nameless "remote.url" ∧ Nameless "remote..url"
    ∧ ∀ name, Nameless ("remote." ++ name ++ ".pushurl") := by
  refine ⟨fun name url => get?_remotesOf_eq_some_iff, ?_,
    fun key h value => remotesOf_insert h value,
    nameless_of_length (by decide), nameless_empty, nameless_pushurl⟩
  rw [entries_remotesOf]
  exact sublist_remoteEntries config.entries

/-- A name may have dots in it and may look like the end of a key. -/
theorem remotesOf_named_dotted :
    let config := Bindings.ofList
      [("remote.my.fork.url", "git@host:fork"),
        ("remote..url.url", "git@host:url")]
    (remotesOf config).get? "my.fork" = some "git@host:fork"
    ∧ (remotesOf config).get? ".url" = some "git@host:url"
    ∧ remotesOf (config.insert "remote.my.fork.pushurl" "git@host:push")
      = remotesOf config := by
  intro config
  obtain ⟨hnames, -, hkeys, -, -, hpush⟩ := remotesOf_named config
  refine ⟨(hnames _ _).2 ⟨by decide, by decide⟩,
    (hnames _ _).2 ⟨by decide, by decide⟩, ?_⟩
  exact hkeys _ (hpush "my.fork") _

end GitPersona
