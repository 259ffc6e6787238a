/-
What making directories and writing a file do to a tree. Making
directories is a run of single steps (`Grown`), each of which puts a
directory where nothing was, so all that was there stays as it was. A
file is put where the path to it lands, in a directory that is there,
and is read by the same path.

Where parts land is read off the parts alone (`follow`): following them
in a tree goes there or nowhere. In a tree whose entries all stand in
directories (`WellFormed`), parts without `..` get to every entry that
they land on. Parts with `..` need not: a missing directory that is
entered and left again bars the way, until it is made.
-/
import GitPersona.FileTree
import Mathlib.Data.List.Induction

namespace GitPersona

namespace FileTree

variable {t t' t'' : FileTree} {place parent before parts rest : List String}
    {part last : String}
  {q : List String} {e : Entry} {cwd p : Path} {text : String}

-- ==================================================================== entries

/-- The root is a directory. -/
@[simp] theorem entry?_nil (t : FileTree) : t.entry? [] = some .directory :=
  if_pos rfl

/-- An entry that is put at a place is there. -/
theorem entry?_put_self (h : place ≠ []) :
    entry? (t.put place e) place = some e := by
  unfold entry? put
  simp [h]

/-- Putting an entry at a place leaves the others alone. -/
theorem entry?_put_of_ne (h : q ≠ place) :
    entry? (t.put place e) q = t.entry? q := by
  have hkey : (q == place) = false := beq_false_of_ne h
  unfold entry? put
  simp [List.lookup_cons, hkey]

/-- Every entry below the root stands in a directory. -/
def WellFormed (t : FileTree) : Prop :=
  ∀ place part e, t.entry? (place ++ [part]) = some e →
    t.entry? place = some .directory

/-- A tree with nothing but the root is well-formed. -/
theorem wellFormed_empty : WellFormed {} := by
  intro place part e h
  unfold entry? at h
  simp at h

/-- Only a directory that is overwritten would leave entries without one. -/
theorem WellFormed.put (ht : t.WellFormed)
    (hparent : t.entry? parent = some .directory)
    (hover : e = .directory ∨ t.entry? (parent ++ [last]) ≠ some .directory) :
    (t.put (parent ++ [last]) e).WellFormed := by
  intro place part e' h
  by_cases hnew : place ++ [part] = parent ++ [last]
  · obtain ⟨rfl, -⟩ := List.append_inj' hnew rfl
    have hne : place ≠ place ++ [last] := by simp
    rw [entry?_put_of_ne hne]
    exact hparent
  · rw [entry?_put_of_ne hnew] at h
    have hdir := ht place part e' h
    by_cases hplace : place = parent ++ [last]
    · rw [hplace, entry?_put_self (by simp)]
      rw [hplace] at hdir
      exact congrArg some (hover.resolve_right (fun hno => hno hdir))
    · rw [entry?_put_of_ne hplace]
      exact hdir

-- ================================================================== following

/-- The place that one part leads to. -/
def hop (place : List String) (part : String) : List String :=
  if part = ".." then place.dropLast else place ++ [part]

/-- The place that parts land on once every step of the way is there. -/
def follow (place parts : List String) : List String :=
  parts.foldl hop place

/-- The place that a path lands on. -/
def landing (cwd p : Path) : List String :=
  follow (start cwd p) p.parts

theorem hop_of_ne (h : part ≠ "..") : hop place part = place ++ [part] :=
  if_neg h

/-- The last part is followed from where those before it lead. -/
theorem follow_concat :
    follow place (before ++ [last]) = hop (follow place before) last := by
  rw [follow, List.foldl_append]
  rfl

/-- Parts without `..` are followed straight down. -/
theorem follow_eq_append (h : ".." ∉ parts) :
    follow place parts = place ++ parts := by
  induction parts generalizing place with
  | nil => exact (List.append_nil _).symm
  | cons part parts ih =>
      have hpart : part ≠ ".." := fun heq => h (heq ▸ List.mem_cons_self)
      show follow (hop place part) parts = _
      rw [ih (fun hmem => h (List.mem_cons_of_mem _ hmem)), hop_of_ne hpart,
        List.append_assoc]
      rfl

/-- One step is taken from a directory, up or to an entry in it. -/
theorem walk_cons_eq_ok_iff : t.walk place (part :: rest) = .ok q ↔
    t.entry? place = some .directory
      ∧ (part = ".." ∨ (t.entry? (place ++ [part])).isSome)
      ∧ t.walk (hop place part) rest = .ok q := by
  rw [walk]
  cases hplace : t.entry? place with
  | none => simp
  | some e =>
      cases e with
      | file text => simp
      | directory =>
          by_cases hup : part = ".."
          · simp [hup, hop]
          · by_cases hpart : (t.entry? (place ++ [part])).isSome
            · simp [hup, hpart, hop]
            · simp [hup, hpart]

/-- Where a walk arrives is where its parts lead. -/
theorem follow_of_walk (h : t.walk place parts = .ok q) :
    follow place parts = q := by
  induction parts generalizing place with
  | nil =>
      cases h
      rfl
  | cons part parts ih => exact ih (walk_cons_eq_ok_iff.1 h).2.2

/-- A walk goes through the first parts and on through the others. -/
theorem walk_append_eq_ok_iff : t.walk place (before ++ rest) = .ok q ↔
    ∃ r, t.walk place before = .ok r ∧ t.walk r rest = .ok q := by
  induction before generalizing place with
  | nil =>
      constructor
      · intro h
        exact ⟨place, rfl, h⟩
      · intro h
        obtain ⟨r, hr, hrest⟩ := h
        cases hr
        exact hrest
  | cons part before ih =>
      rw [List.cons_append, walk_cons_eq_ok_iff, ih]
      constructor
      · intro h
        obtain ⟨hplace, hpart, r, hr, hrest⟩ := h
        exact ⟨r, walk_cons_eq_ok_iff.2 ⟨hplace, hpart, hr⟩, hrest⟩
      · intro h
        obtain ⟨r, hwalk, hrest⟩ := h
        obtain ⟨hplace, hpart, hr⟩ := walk_cons_eq_ok_iff.1 hwalk
        exact ⟨hplace, hpart, r, hr, hrest⟩

/-- A last step to an entry of the directory that is reached. -/
theorem walk_concat (hwalk : t.walk place before = .ok parent)
    (hparent : t.entry? parent = some .directory) (hlast : last ≠ "..")
    (hentry : (t.entry? (parent ++ [last])).isSome) :
    t.walk place (before ++ [last]) = .ok (parent ++ [last]) := by
  refine walk_append_eq_ok_iff.2
    ⟨parent, hwalk, walk_cons_eq_ok_iff.2 ⟨hparent, Or.inr hentry, ?_⟩⟩
  rw [hop_of_ne hlast]
  rfl

/-- Parts without `..` get to what they land on. -/
theorem WellFormed.walk_append (ht : t.WellFormed) (hup : ".." ∉ parts)
    (hentry : (t.entry? (place ++ parts)).isSome) :
    t.walk place parts = .ok (place ++ parts) := by
  induction parts using List.reverseRecOn with
  | nil =>
      rw [List.append_nil]
      rfl
  | append_singleton before last ih =>
      rw [← List.append_assoc] at hentry ⊢
      obtain ⟨e, he⟩ := Option.isSome_iff_exists.1 hentry
      have hdir := ht _ _ _ he
      have hbefore := ih (fun h => hup (List.mem_append_left _ h))
        (by rw [hdir]; rfl)
      have hlast : last ≠ ".." :=
        fun h => hup (h ▸ List.mem_append_right _ List.mem_cons_self)
      exact walk_concat hbefore hdir hlast hentry

/-- What can be reached can be reached in a tree that has all its entries, and
its directories as directories. -/
theorem walk_of_entries
    (hdirectory : ∀ q, t.entry? q = some .directory →
        t'.entry? q = some .directory)
    (hentry : ∀ q, (t.entry? q).isSome → (t'.entry? q).isSome)
    (h : t.walk place parts = .ok q) : t'.walk place parts = .ok q := by
  induction parts generalizing place with
  | nil => exact h
  | cons part parts ih =>
      obtain ⟨hplace, hpart, hrest⟩ := walk_cons_eq_ok_iff.1 h
      exact walk_cons_eq_ok_iff.2
        ⟨hdirectory _ hplace, hpart.imp_right (hentry _), ih hrest⟩

/-- A path without a NUL is followed part by part. -/
theorem locate_of_not_holdsNull (h : p.holdsNull = false) :
    t.locate cwd p = t.walk (start cwd p) p.parts :=
  if_neg (Bool.eq_false_iff.1 h)

/-- A path exists when it leads somewhere. -/
theorem exists?_eq_true_iff :
    t.exists? cwd p = true ↔ ∃ q, t.locate cwd p = .ok q := by
  unfold exists?
  cases t.locate cwd p <;> simp

-- ========================================================= making directories

/-- A tree has grown out of another by directories that were made one by one
where nothing was. -/
inductive Grown (t : FileTree) : FileTree → Prop
  | refl : Grown t t
  | made {t' : FileTree} {parent : List String} {last : String}
      (h : Grown t t')
      (hparent : t'.entry? parent = some .directory)
      (hfree : t'.entry? (parent ++ [last]) = none) :
      Grown t (t'.put (parent ++ [last]) .directory)

/-- What grows twice grows. -/
theorem Grown.trans (h : Grown t t') (h' : Grown t' t'') : Grown t t'' := by
  induction h' with
  | refl => exact h
  | made _ hparent hfree ih => exact .made ih hparent hfree

/-- What is there stays as a tree grows. -/
theorem Grown.kept (h : Grown t t') (hentry : t.entry? q = some e) :
    t'.entry? q = some e := by
  induction h with
  | refl => exact hentry
  | @made t' parent last _ _ hfree ih =>
      have hne : q ≠ parent ++ [last] := fun heq => by
        rw [heq, hfree] at ih
        cases ih
      rw [entry?_put_of_ne hne]
      exact ih

/-- What is new in a grown tree is a directory. -/
theorem Grown.added (h : Grown t t') (hentry : t'.entry? q = some e) :
    t.entry? q = some e ∨ e = .directory := by
  induction h with
  | refl => exact Or.inl hentry
  | @made t' parent last _ _ _ ih =>
      by_cases heq : q = parent ++ [last]
      · rw [heq, entry?_put_self (by simp)] at hentry
        exact Or.inr (Option.some.inj hentry).symm
      · rw [entry?_put_of_ne heq] at hentry
        exact ih hentry

/-- A well-formed tree stays so as it grows. -/
theorem Grown.wellFormed (h : Grown t t') (ht : t.WellFormed) :
    t'.WellFormed := by
  induction h with
  | refl => exact ht
  | made _ hparent _ ih => exact ih.put hparent (Or.inl rfl)

/-- Making one directory makes a tree grow. -/
theorem grown_of_makeOne (h : t.makeOne place parts = .made t') :
    Grown t t' := by
  cases parts with
  | nil => cases h
  | cons last before =>
      rw [makeOne] at h
      cases hwalk : t.walk place before.reverse with
      | error o => cases o <;> simp [hwalk] at h
      | ok parent =>
          cases hparent : t.entry? parent with
          | none => simp [hwalk, hparent] at h
          | some e =>
              cases e with
              | file text => simp [hwalk, hparent] at h
              | directory =>
                  simp only [hwalk, hparent] at h
                  split at h
                  · cases h
                  · next hfree =>
                    cases h
                    rw [Bool.or_eq_true, not_or, Option.not_isSome_iff_eq_none]
                      at hfree
                    exact .made .refl hparent hfree.2

/-- Whatever comes of an attempt to make a directory, the tree has grown. -/
theorem grown_settle :
    Grown t (t.settle cwd p (t.makeOne place parts)).files := by
  cases hmaking : t.makeOne place parts with
  | made t' => exact grown_of_makeOne hmaking
  | parentMissing => exact .refl
  | parentNotDirectory => exact .refl
  | taken => exact .refl

/-- Making directories does nothing else, whether it succeeds or not. -/
theorem grown_makeDirectories (t : FileTree) (cwd p : Path) :
    Grown t (t.makeDirectories cwd p).files := by
  by_cases hparts : p.parts = []
  · rw [makeDirectories, if_pos hparts]
    exact .refl
  · have hshorter : p.parent.parts.length < p.parts.length := by
      rw [Path.parent, List.length_dropLast]
      exact Nat.sub_lt (List.length_pos_iff.2 hparts) Nat.one_pos
    have ih := grown_makeDirectories t cwd p.parent
    rw [makeDirectories, if_neg hparts]
    by_cases hnull : p.holdsNull = true
    · rw [if_pos hnull]
      exact .refl
    · rw [if_neg hnull]
      split
      · dsimp only
        split
        · exact ih
        · exact ih.trans grown_settle
      · exact grown_settle
  termination_by p.parts.length

-- ============================================================= writing a file

/-- A file is put where the path to it lands, in a directory that the
path leads to. -/
theorem write_eq_ok_iff : t.write cwd p text = .ok t' ↔
    p.holdsNull = false ∧ ∃ before last parent, p.parts = before ++ [last]
      ∧ last ≠ ".." ∧ t.walk (start cwd p) before = .ok parent
      ∧ t.entry? parent = some .directory
      ∧ t.entry? (parent ++ [last]) ≠ some .directory
      ∧ t' = t.put (parent ++ [last]) (.file text) := by
  cases hnull : p.holdsNull with
  | true => simp [write, hnull]
  | false =>
      constructor
      · intro h
        refine ⟨rfl, ?_⟩
        obtain hparts | ⟨before, last, hparts⟩ :=
          List.eq_nil_or_concat p.parts
        · simp [write, hnull, hparts] at h
        · rw [List.concat_eq_append] at hparts
          simp only [write, hnull, hparts, List.reverse_append,
            List.reverse_singleton, List.singleton_append,
            List.reverse_reverse, Bool.false_eq_true, if_false] at h
          cases hwalk : t.walk (start cwd p) before with
          | error o => simp [hwalk] at h
          | ok parent =>
              cases hparent : t.entry? parent with
              | none => simp [hwalk, hparent] at h
              | some e =>
                  cases e with
                  | file old => simp [hwalk, hparent] at h
                  | directory =>
                      simp only [hwalk, hparent] at h
                      split at h
                      · cases h
                      · next hfree =>
                        cases h
                        rw [Bool.or_eq_true, not_or, decide_eq_true_eq,
                          beq_iff_eq] at hfree
                        exact ⟨before, last, parent, hparts, hfree.1,
                          hwalk, hparent, hfree.2, rfl⟩
      · rintro ⟨-, before, last, parent, hparts, hlast, hwalk, hparent,
          hover, rfl⟩
        simp [write, hnull, hparts, hwalk, hparent, hlast, hover]

/-- The directory that a file is put in and the last part make up the place
that the path lands on. -/
theorem landing_eq_concat (hparts : p.parts = before ++ [last])
    (hlast : last ≠ "..")
    (hwalk : t.walk (start cwd p) before = .ok parent) :
    landing cwd p = parent ++ [last] := by
  rw [landing, hparts, follow_concat, follow_of_walk hwalk, hop_of_ne hlast]

/-- A file that is written can be read by the same path. -/
theorem read?_of_write (h : t.write cwd p text = .ok t') :
    t'.read? cwd p = .ok (some text) := by
  obtain ⟨hnull, before, last, parent, hparts, hlast, hwalk, hparent, hover,
    hput⟩ := write_eq_ok_iff.1 h
  have hself : t'.entry? (parent ++ [last]) = some (.file text) := by
    rw [hput]
    exact entry?_put_self (by simp)
  have hother : ∀ q, q ≠ parent ++ [last] → t'.entry? q = t.entry? q := by
    intro q hne
    rw [hput]
    exact entry?_put_of_ne hne
  have hdirectory : ∀ q, t.entry? q = some .directory →
      t'.entry? q = some .directory := by
    intro q hq
    rw [hother q (fun heq => hover (heq ▸ hq))]
    exact hq
  have hentry : ∀ q, (t.entry? q).isSome → (t'.entry? q).isSome := by
    intro q hq
    by_cases heq : q = parent ++ [last]
    · rw [heq, hself]
      rfl
    · rw [hother q heq]
      exact hq
  -- the write takes no directory away, so the path still leads there
  have hlocate : t'.locate cwd p = .ok (parent ++ [last]) := by
    have hwalk' := walk_of_entries hdirectory hentry hwalk
    rw [locate_of_not_holdsNull hnull, hparts]
    exact walk_concat hwalk' (hdirectory parent hparent) hlast
      (by rw [hself]; rfl)
  rw [read?, hlocate]
  simp only [hself]

end FileTree

end GitPersona
