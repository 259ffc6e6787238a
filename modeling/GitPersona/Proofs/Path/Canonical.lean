/-
Normalizing brings a path into a form that it has once and for all: it
starts at the root, no part of it is `..`, and normalizing it again,
under any home and in any current directory, changes nothing
(`Normalized`). `normalized_iff` reads that off the path itself, and
`normalize_canonical` says that normalizing gives nothing else in a
current directory that starts with one slash, as the system reports it.

Of a current directory that is written with two slashes a relative path
would take over both, and lose one the second time;
`normalized_or_doubleSlash` shows that nothing else stands in the way.

# Two readings of a path

`Arrives` and `FromRoot` say what the parts of a path and a text that a
user writes stand for, without saying how they are gone through:
removing `..` is going through the names from the root (`arrives_iff`),
and expanding the home directory gives an absolute path for the texts
that start at the root (`fromRoot_iff`). What a NUL is in is neither
expanded nor looked up: `expandHome_eq_error_iff` and
`resolve_eq_error_iff` say where that ends in a defect.
-/
import GitPersona.Proofs.Path.Text
import Mathlib.Data.List.DropRight
import Mathlib.Data.List.Induction

namespace GitPersona.Path

-- ================================================== statement vocabulary

/-- Going through names from the root one arrives at a directory. A name leads
down into it; `..` leads back up, and at the root it leads nowhere. -/
inductive Arrives : List String → List String → Prop
  | start : Arrives [] []
  | down {names dir : List String} {name : String} :
      name ≠ ".." → Arrives names dir →
      Arrives (names ++ [name]) (dir ++ [name])
  | up {names dir : List String} :
      Arrives names dir → Arrives (names ++ [".."]) dir.dropLast

/-- A text starts with a slash. -/
def StartsAtRoot (s : String) : Prop :=
  ['/'] <+: s.toList

instance (s : String) : Decidable (StartsAtRoot s) :=
  inferInstanceAs (Decidable (['/'] <+: s.toList))

/-- A NUL is in one of some names. -/
def NulIn (names : List String) : Prop :=
  ∃ name ∈ names, nul ∈ name.toList

/-- The names that a text passes from the root: its own if it starts
there, those of a home directory first if its first name is a tilde,
with the name of a user for the home of that user. A home directory
that is empty is the root. Any other text is relative. -/
inductive FromRoot (homes : Homes) : String → List String → Prop
  | absolute {s : String} :
      StartsAtRoot s → FromRoot homes s (partsOf s.toList)
  | underHome {s user home : String} {names : List String} :
      ¬StartsAtRoot s → partsOf s.toList = ("~" ++ user) :: names →
      nul ∉ user.toList → homes.of? user = some home →
      home = "" ∨ StartsAtRoot home →
      FromRoot homes s (partsOf home.toList ++ names)

/-- Normalizing leaves the path as it is, whatever the homes and the
current directory. -/
def Normalized (p : Path) : Prop :=
  ∀ homes cwd, normalize homes cwd p.text = .ok p

-- ================================================= going through names

/-- One part more goes back up, or down. -/
theorem collapse_concat (names : List String) (name : String) :
    collapse (names ++ [name])
      = if name = ".." then (collapse names).dropLast
        else collapse names ++ [name] := by
  unfold collapse
  rw [List.foldl_append, List.foldl_cons, List.foldl_nil, enter]
  split
  · rw [List.dropLast_reverse]
  · rw [List.reverse_cons]

/-- Parts lead to what is left of them without `..`. -/
theorem arrives_collapse (names : List String) :
    Arrives names (collapse names) := by
  induction names using List.reverseRecOn with
  | nil => exact Arrives.start
  | append_singleton names name ih =>
      rw [collapse_concat]
      split
      · next hup =>
        subst hup
        exact Arrives.up ih
      · next hdown => exact Arrives.down hdown ih

/-- Names lead to one directory, the one that is left without `..`. -/
theorem arrives_iff {names dir : List String} :
    Arrives names dir ↔ dir = collapse names := by
  refine ⟨fun h => ?_, fun h => h ▸ arrives_collapse names⟩
  induction h with
  | start => rfl
  | down hname _ ih => rw [collapse_concat, if_neg hname, ih]
  | up _ ih => rw [collapse_concat, if_pos rfl, ih]

/-- One arrives at a directory that is named without `..`. -/
theorem Arrives.notMem {names dir : List String} (h : Arrives names dir) :
    ".." ∉ dir := by
  induction h with
  | start => exact List.not_mem_nil
  | down hname _ ih =>
      rw [List.mem_append, List.mem_singleton, not_or]
      exact ⟨ih, Ne.symm hname⟩
  | up _ ih => exact fun hmem => ih (List.dropLast_subset _ hmem)

/-- What is left of some parts is without `..`. -/
theorem notMem_collapse (names : List String) : ".." ∉ collapse names :=
  (arrives_collapse names).notMem

/-- Names without `..` lead where they say. -/
theorem collapse_eq_self {names : List String} (h : ".." ∉ names) :
    collapse names = names := by
  induction names using List.reverseRecOn with
  | nil => rfl
  | append_singleton names name ih =>
      rw [List.mem_append, List.mem_singleton, not_or] at h
      rw [collapse_concat, if_neg (Ne.symm h.2), ih h.1]

-- ======================================================= where texts start

/-- Characters are relative unless they start with a slash. -/
theorem anchorOf_eq_relative_iff {cs : List Char} :
    anchorOf cs = .relative ↔ ¬['/'] <+: cs := by
  cases cs with
  | nil => simp [anchorOf]
  | cons c cs =>
      rw [List.cons_prefix_cons, and_iff_left List.nil_prefix]
      by_cases hc : c = '/'
      · subst hc
        rw [anchorOf, List.takeWhile_cons_of_pos rfl, List.length_cons]
        split
        · next hlen => omega
        · simp
        · simp
      · rw [anchorOf, List.takeWhile_cons_of_neg (by simpa using hc)]
        simpa using Ne.symm hc

/-- The texts that start at the root are read as absolute paths. -/
theorem isAbsolute_parse {s : String} :
    (parse s).isAbsolute = true ↔ StartsAtRoot s := by
  rw [isAbsolute, bne_iff_ne, Ne, parse, anchorOf_eq_relative_iff,
    Classical.not_not]
  rfl

-- =================================================== the home directories

/-- What is left of a text without the slashes at its end, and those
slashes, make it up. -/
theorem exists_trailing_slashes (cs : List Char) :
    ∃ slashes, cs = Text.dropEndWhile (· == '/') cs ++ slashes
      ∧ ∀ c ∈ slashes, c = '/' :=
  ⟨_, List.rdropWhile_append_rtakeWhile.symm,
    fun c hc => by simpa using List.mem_rtakeWhile_imp hc⟩

/-- Slashes at the end add no part. -/
theorem partsOf_append_slashes {slashes : List Char}
    (h : ∀ c ∈ slashes, c = '/') (cs : List Char) :
    partsOf (cs ++ slashes) = partsOf cs := by
  induction slashes generalizing cs with
  | nil => rw [List.append_nil]
  | cons c slashes ih =>
      have hrest := ih (fun d hd => h d (List.mem_cons_of_mem _ hd)) []
      rw [h c List.mem_cons_self, partsOf_slash_append,
        ← List.nil_append slashes, hrest]
      exact List.append_nil _

/-- Slashes at the end of a text do not tell whether it is the root, or
starts there. -/
private theorem atRoot_append_slashes {slashes : List Char}
    (h : ∀ c ∈ slashes, c = '/') (stem : List Char) :
    (stem ++ slashes = [] ∨ ['/'] <+: stem ++ slashes)
      ↔ (stem = [] ∨ ['/'] <+: stem) := by
  cases stem with
  | cons c stem => simp [List.cons_prefix_cons]
  | nil =>
      refine iff_of_true ?_ (Or.inl rfl)
      cases slashes with
      | nil => exact Or.inl rfl
      | cons c slashes =>
          exact Or.inr (h c List.mem_cons_self ▸ ⟨slashes, rfl⟩)

/-- A home directory has the parts that it is written with, and is
absolute if it is written so. One that is written with nothing is the
root, one that starts with a tilde is no directory. -/
theorem directoryOf?_cases (home : String) :
    (∃ base, Homes.directoryOf? home = some base
        ∧ base.parts = partsOf home.toList
        ∧ (base.isAbsolute = true ↔ home = "" ∨ StartsAtRoot home))
      ∨ Homes.directoryOf? home = none
        ∧ ¬(home = "" ∨ StartsAtRoot home) := by
  obtain ⟨slashes, hhome, hslashes⟩ := exists_trailing_slashes home.toList
  have hparts := partsOf_append_slashes hslashes
    (Text.dropEndWhile (· == '/') home.toList)
  have hroot := atRoot_append_slashes hslashes
    (Text.dropEndWhile (· == '/') home.toList)
  rw [← hhome, String.toList_eq_nil_iff] at hroot
  rw [← hhome] at hparts
  unfold Homes.directoryOf? StartsAtRoot
  rw [hparts, hroot]
  generalize Text.dropEndWhile (· == '/') home.toList = stem
  split
  · exact Or.inl ⟨root, rfl, rfl, iff_of_true rfl (Or.inl rfl)⟩
  · next stem => exact Or.inr ⟨rfl, by simp⟩
  · next hsome htilde =>
    refine Or.inl ⟨_, rfl, congrArg partsOf String.toList_ofList, ?_⟩
    rw [isAbsolute_parse, StartsAtRoot, String.toList_ofList,
      or_iff_right hsome]

/-- Only a home directory that starts with a tilde names no directory. -/
theorem directoryOf?_eq_none_iff {home : String} :
    Homes.directoryOf? home = none ↔ ['~'] <+: home.toList := by
  obtain ⟨slashes, hhome, hslashes⟩ := exists_trailing_slashes home.toList
  unfold Homes.directoryOf?
  generalize Text.dropEndWhile (· == '/') home.toList = stem at hhome
  rw [hhome]
  split
  · refine iff_of_false (by simp) fun hlead => ?_
    have htilde := hslashes '~' (hlead.subset List.mem_cons_self)
    exact absurd htilde (by decide)
  · simp
  · next hnil htilde =>
    refine iff_of_false (by simp) fun hlead => ?_
    cases stem with
    | nil => exact hnil rfl
    | cons c stem =>
        rw [List.cons_append, List.cons_prefix_cons] at hlead
        exact htilde stem (hlead.1 ▸ rfl)

variable {homes : Homes} {user s : String} {cwd p base : Path}
  {defect : Defect}

/-- A user has the home directory that the system knows, unless the name
holds a NUL. -/
theorem directory_eq_ok_iff : homes.directory user = .ok base
    ↔ nul ∉ user.toList ∧ ∃ home, homes.of? user = some home
      ∧ Homes.directoryOf? home = some base := by
  unfold Homes.directory
  rw [List.contains_eq_mem]
  by_cases hnul : nul ∈ user.toList
  · simp [hnul]
  · rw [if_neg (by simpa using hnul), and_iff_right hnul,
      ← Option.bind_eq_some_iff]
    cases (homes.of? user).bind Homes.directoryOf? <;> simp

/-- There is no home directory for a name with a NUL, nor for a user that
the system knows none of, or one that starts with a tilde. -/
theorem directory_eq_error_iff : homes.directory user = .error defect
    ↔ (nul ∈ user.toList ∧ defect = .nullByte)
      ∨ nul ∉ user.toList ∧ defect = .homeUnknown
        ∧ ∀ home, homes.of? user = some home → ['~'] <+: home.toList := by
  unfold Homes.directory
  rw [List.contains_eq_mem]
  by_cases hnul : nul ∈ user.toList
  · simp [hnul, eq_comm]
  · rw [if_neg (by simpa using hnul), or_iff_right fun h => hnul h.1,
      and_iff_right hnul]
    simp only [← directoryOf?_eq_none_iff]
    cases hhome : homes.of? user with
    | none => simp [eq_comm]
    | some home =>
        cases hbase : Homes.directoryOf? home <;> simp [hbase, eq_comm]

-- ===================================================== expanding a home

/-- An absolute path has no home directory to expand. -/
theorem expandHome_of_isAbsolute (h : p.isAbsolute = true)
    (homes : Homes) : p.expandHome homes = .ok p := by
  unfold expandHome
  split
  · next hanchor _ =>
    rw [isAbsolute, hanchor] at h
    cases h
  · rfl

theorem expandHome_of_tilde {names : List String}
    (h : p.anchor = .relative) (hparts : p.parts = ("~" ++ user) :: names)
    (homes : Homes) :
    (∃ top, homes.directory user = .ok top ∧ ∃ base,
        p.expandHome homes = .ok base ∧ base.anchor = top.anchor
          ∧ base.parts = top.parts ++ names)
      ∨ ∃ defect, homes.directory user = .error defect
        ∧ p.expandHome homes = .error defect := by
  obtain ⟨anchor, parts, proper⟩ := p
  obtain rfl : anchor = .relative := h
  obtain rfl : parts = ("~" ++ user) :: names := hparts
  have hfirst : ("~" ++ user).toList = '~' :: user.toList := by simp
  unfold expandHome
  dsimp only
  split
  · next name hname =>
    obtain rfl : name = user.toList := by
      rw [hfirst] at hname
      exact (List.cons.inj hname).2.symm
    rw [String.ofList_toList]
    cases hhome : homes.directory user with
    | ok top => exact Or.inl ⟨top, rfl, _, rfl, rfl, rfl⟩
    | error defect => exact Or.inr ⟨defect, rfl, rfl⟩
  · next hother => exact absurd hfirst (hother user.toList)

/-- A path whose first part has no tilde stands for itself. -/
theorem expandHome_of_ne (h : ∀ user names, p.parts ≠ ("~" ++ user) :: names)
    (homes : Homes) : p.expandHome homes = .ok p := by
  unfold expandHome
  split
  · next first rest hanchor hparts =>
    split
    · next user hfirst =>
      refine absurd hparts ?_
      have htilde : first = "~" ++ String.ofList user := by
        rw [← String.toList_inj, hfirst]
        simp
      rw [htilde]
      exact h _ _
    · rfl
  · rfl

/-- Either the first part of a path asks for a home directory, or the path
stands for itself. -/
theorem tilde_or_expandHome_eq (p : Path) (homes : Homes) :
    (p.anchor = .relative ∧ ∃ user names, p.parts = ("~" ++ user) :: names)
      ∨ p.expandHome homes = .ok p := by
  by_cases hrelative : p.anchor = .relative
  · by_cases htilde : ∃ user names, p.parts = ("~" ++ user) :: names
    · exact Or.inl ⟨hrelative, htilde⟩
    · refine Or.inr (expandHome_of_ne (fun user names hparts => ?_) homes)
      exact htilde ⟨user, names, hparts⟩
  · exact Or.inr (expandHome_of_isAbsolute (bne_iff_ne.2 hrelative) homes)

/-- Expanding a home fails where there is no home directory to expand. -/
theorem expandHome_eq_error_iff : p.expandHome homes = .error defect
    ↔ p.anchor = .relative
      ∧ ∃ user names, p.parts = ("~" ++ user) :: names
        ∧ homes.directory user = .error defect := by
  constructor
  · intro h
    rcases tilde_or_expandHome_eq p homes with ⟨hrel, user, names, hparts⟩
      | hself
    · refine ⟨hrel, user, names, hparts, ?_⟩
      rcases expandHome_of_tilde hrel hparts homes with
        ⟨_, -, base, hbase, -⟩ | ⟨defect', hdirectory, herror⟩
      · rw [hbase] at h
        cases h
      · rw [herror] at h
        cases h
        exact hdirectory
    · rw [hself] at h
      cases h
  · rintro ⟨hrel, user, names, hparts, hdirectory⟩
    rcases expandHome_of_tilde hrel hparts homes with ⟨_, hok, -⟩
      | ⟨defect', herror, hexpand⟩
    · rw [hok] at hdirectory
      cases hdirectory
    · rw [herror] at hdirectory
      cases hdirectory
      exact hexpand

/-- A relative path becomes absolute where its first part asks for a home
directory and that is absolute; the other parts then follow those of the
home directory. -/
theorem expandHome_of_relative {names : List String}
    (h : p.anchor = .relative) :
    (∃ base, p.expandHome homes = .ok base ∧ base.isAbsolute = true
        ∧ base.parts = names)
      ↔ ∃ user rest top, p.parts = ("~" ++ user) :: rest
          ∧ homes.directory user = .ok top ∧ top.isAbsolute = true
          ∧ names = top.parts ++ rest := by
  constructor
  · rintro ⟨base, hbase, habs, rfl⟩
    rcases tilde_or_expandHome_eq p homes with ⟨-, user, rest, hparts⟩
      | hself
    · rcases expandHome_of_tilde h hparts homes with
        ⟨top, htop, base', hbase', hanchor, hrest⟩ | ⟨_, -, herror⟩
      · rw [hbase] at hbase'
        cases hbase'
        refine ⟨user, rest, top, hparts, htop, ?_, hrest⟩
        rwa [isAbsolute, ← hanchor]
      · rw [hbase] at herror
        cases herror
    · rw [hself] at hbase
      cases hbase
      rw [isAbsolute, h] at habs
      cases habs
  · rintro ⟨user, rest, top, hparts, htop, habs, rfl⟩
    rcases expandHome_of_tilde h hparts homes with
      ⟨top', htop', base, hbase, hanchor, hrest⟩ | ⟨_, herror, -⟩
    · rw [htop] at htop'
      cases htop'
      exact ⟨base, hbase, by rwa [isAbsolute, hanchor], hrest⟩
    · rw [htop] at herror
      cases herror

/-- The texts from which a path starts at the root, home expanded, and the
names that it passes. -/
theorem fromRoot_iff {names : List String} :
    FromRoot homes s names
      ↔ ∃ base, (parse s).expandHome homes = .ok base
          ∧ base.isAbsolute = true ∧ base.parts = names := by
  by_cases habs : StartsAtRoot s
  · rw [expandHome_of_isAbsolute (isAbsolute_parse.2 habs)]
    constructor
    · intro h
      cases h with
      | absolute _ => exact ⟨_, rfl, isAbsolute_parse.2 habs, rfl⟩
      | underHome hrel _ _ _ _ => exact absurd habs hrel
    · rintro ⟨base, hbase, -, rfl⟩
      cases hbase
      exact .absolute habs
  · have hrel : (parse s).anchor = .relative :=
      anchorOf_eq_relative_iff.2 habs
    rw [expandHome_of_relative hrel]
    constructor
    · intro h
      cases h with
      | absolute hroot => exact absurd hroot habs
      | @underHome user home rest _ hparts hnul hhome hroot =>
          obtain ⟨top, htop, htopParts, habsTop⟩ :=
            (directoryOf?_cases home).resolve_right fun hnone =>
              hnone.2 hroot
          have hdirectory : homes.directory user = .ok top :=
            directory_eq_ok_iff.2 ⟨hnul, home, hhome, htop⟩
          exact ⟨user, rest, top, hparts, hdirectory, habsTop.2 hroot,
            htopParts ▸ rfl⟩
    · rintro ⟨user, rest, top, hparts, hdirectory, habsTop, rfl⟩
      obtain ⟨hnul, home, hhome, htop⟩ := directory_eq_ok_iff.1 hdirectory
      rcases directoryOf?_cases home with ⟨top', htop', htopParts, hroot⟩
        | ⟨hnone, -⟩
      · obtain rfl : top = top' := Option.some.inj (htop.symm.trans htop')
        rw [htopParts]
        exact .underHome habs hparts hnul hhome (hroot.1 habsTop)
      · rw [htop] at hnone
        cases hnone

-- ========================================================== normal forms

/-- Looking for a NUL in a path finds one that is there. -/
theorem holdsNull_iff : p.holdsNull = true ↔ NulIn p.parts := by
  simp [holdsNull, NulIn]

/-- A path is found under a directory unless a NUL is in it. -/
theorem resolve_eq_ok_iff : resolve cwd base = .ok p
    ↔ ¬NulIn (cwd.join base).parts
      ∧ p = (cwd.join base).collapsed
        (if base.isAbsolute then .slash else cwd.anchor) := by
  unfold resolve
  dsimp only
  rw [← holdsNull_iff]
  split
  · next hnul => exact iff_of_false (by simp) fun h => h.1 hnul
  · next hnul => rw [Except.ok.injEq, and_iff_right hnul, eq_comm]

/-- Resolving comes to grief exactly over a NUL. -/
theorem resolve_eq_error_iff : resolve cwd base = .error defect
    ↔ defect = .nullByte ∧ NulIn (cwd.join base).parts := by
  unfold resolve
  dsimp only
  rw [← holdsNull_iff]
  split
  · next hnul => rw [Except.error.injEq, and_iff_left hnul, eq_comm]
  · next hnul => exact iff_of_false (by simp) fun h => hnul h.2

/-- Normalizing expands the home directory and then resolves. -/
theorem normalize_eq_ok_iff : normalize homes cwd s = .ok p
    ↔ ∃ base, (parse s).expandHome homes = .ok base
      ∧ resolve cwd base = .ok p := by
  unfold normalize
  cases (parse s).expandHome homes with
  | ok base => simp [bind, Except.bind]
  | error defect => simp [bind, Except.bind]

/-- Normalizing comes to grief where one of the two steps does. -/
theorem normalize_eq_error_iff : normalize homes cwd s = .error defect
    ↔ (parse s).expandHome homes = .error defect
      ∨ ∃ base, (parse s).expandHome homes = .ok base
        ∧ resolve cwd base = .error defect := by
  unfold normalize
  cases (parse s).expandHome homes with
  | ok base => simp [bind, Except.bind]
  | error defect => simp [bind, Except.bind]

/-- Seen from anywhere, an absolute path is itself. -/
theorem join_of_isAbsolute (h : base.isAbsolute = true) (cwd : Path) :
    cwd.join base = base :=
  if_pos h

/-- What is found has no part that goes back up, and holds no NUL. -/
theorem parts_of_resolve (h : resolve cwd base = .ok p) :
    ".." ∉ p.parts ∧ ¬NulIn p.parts := by
  obtain ⟨hnul, rfl⟩ := resolve_eq_ok_iff.1 h
  refine ⟨notMem_collapse _, fun hin => hnul ?_⟩
  obtain ⟨name, hname, hmem⟩ := hin
  exact ⟨name, mem_of_mem_collapse hname, hmem⟩

/-- Resolving keeps the anchor of the current directory only for a
relative path. -/
theorem anchor_of_resolve (h : resolve cwd base = .ok p) :
    p.anchor = if base.isAbsolute then .slash else cwd.anchor := by
  obtain ⟨-, rfl⟩ := resolve_eq_ok_iff.1 h
  rfl

/-- A path is normalized if it starts at the root, goes back up nowhere
and holds no NUL. -/
theorem normalized_iff : p.Normalized
    ↔ p.anchor = .slash ∧ ".." ∉ p.parts ∧ ¬NulIn p.parts := by
  constructor
  · intro h
    obtain ⟨base, -, hp⟩ :=
      normalize_eq_ok_iff.1 (h ⟨none, fun _ => none⟩ root)
    refine ⟨?_, parts_of_resolve hp⟩
    rw [anchor_of_resolve hp]
    split
    · rfl
    · rfl
  · rintro ⟨hanchor, hup, hnul⟩ homes cwd
    have habs : p.isAbsolute = true := by rw [isAbsolute, hanchor]; rfl
    refine normalize_eq_ok_iff.2 ⟨p, ?_, resolve_eq_ok_iff.2 ⟨?_, ?_⟩⟩
    · rw [parse_text, expandHome_of_isAbsolute habs]
    · rwa [join_of_isAbsolute habs]
    · rw [join_of_isAbsolute habs, if_pos habs, collapsed, Path.mk.injEq]
      exact ⟨hanchor, (collapse_eq_self hup).symm⟩

-- ============================================================== main result

/-- In any absolute current directory what normalizing gives is absolute,
and normalized unless a relative path takes over two leading slashes. -/
theorem normalized_or_doubleSlash (hcwd : cwd.isAbsolute = true)
    (h : normalize homes cwd s = .ok p) :
    p.isAbsolute = true
      ∧ (p.Normalized ∨ p.anchor = .doubleSlash
          ∧ cwd.anchor = .doubleSlash ∧ ∀ names, ¬FromRoot homes s names) := by
  obtain ⟨base, hbase, hp⟩ := normalize_eq_ok_iff.1 h
  have hanchor := anchor_of_resolve hp
  have hparts := parts_of_resolve hp
  by_cases habs : base.isAbsolute = true
  · rw [if_pos habs] at hanchor
    exact ⟨by rw [isAbsolute, hanchor]; rfl,
      Or.inl (normalized_iff.2 ⟨hanchor, hparts⟩)⟩
  · rw [if_neg habs] at hanchor
    have hrelative : ∀ names, ¬FromRoot homes s names := fun names hnames => by
      obtain ⟨base', hbase', habs', -⟩ := fromRoot_iff.1 hnames
      rw [hbase] at hbase'
      cases hbase'
      exact habs habs'
    refine ⟨by rwa [isAbsolute, hanchor], ?_⟩
    cases hslashes : cwd.anchor with
    | relative =>
        rw [isAbsolute, hslashes] at hcwd
        cases hcwd
    | slash =>
        exact Or.inl (normalized_iff.2 ⟨hanchor.trans hslashes, hparts⟩)
    | doubleSlash =>
        exact Or.inr ⟨hanchor.trans hslashes, rfl, hrelative⟩

/-- In a directory that is written with two leading slashes, a relative
path gets two as well, and loses one when it is normalized again. -/
example :
    normalize ⟨none, fun _ => none⟩ (parse "//srv") "a"
        = .ok (parse "//srv/a")
      ∧ normalize ⟨none, fun _ => none⟩ (parse "//srv") "//srv/a"
        = .ok (parse "/srv/a") := by
  decide +kernel

/-- Under a current directory that starts with one slash, as the system
reports it, what normalizing gives is absolute, without parts that are
empty, dots or `..`, and normalized. -/
theorem normalize_canonical {homes : Homes} {s : String} {cwd p : Path}
    (hcwd : cwd.anchor = .slash) (h : normalize homes cwd s = .ok p) :
    p.isAbsolute = true
      ∧ (∀ part ∈ p.parts, part ≠ "" ∧ part ≠ "." ∧ part ≠ "..")
      ∧ p.Normalized := by
  have habs : cwd.isAbsolute = true := by rw [isAbsolute, hcwd]; rfl
  obtain ⟨hroot, hnormalized⟩ := normalized_or_doubleSlash habs h
  have hcanonical : p.Normalized := hnormalized.resolve_right fun hdouble => by
    rw [hcwd] at hdouble
    cases hdouble.2.1
  refine ⟨hroot, fun part hpart => ?_, hcanonical⟩
  have hproper := p.proper part hpart
  refine ⟨?_, ?_, fun hdots => (normalized_iff.1 hcanonical).2.1
    (hdots ▸ hpart)⟩
  · rintro rfl
    cases hproper
  · rintro rfl
    cases hproper

/-- A system that knows a home directory, and one of another user. -/
def adaAndBob : Homes where
  own := some "/home/ada"
  ofUser name := if name = "bob" then some "/srv/bob/" else none

/-- A path that goes up from the home of a user, with a double slash and a
dot in it, comes out normalized. -/
theorem normalize_upFromHome :
    (parse "/srv").anchor = .slash
      ∧ normalize adaAndBob (parse "/srv") "~bob/../b//./c/"
        = .ok (parse "/srv/b/c")
      ∧ (parse "/srv/b/c").Normalized := by
  have hcwd : (parse "/srv").anchor = .slash := by decide
  have hpath : normalize adaAndBob (parse "/srv") "~bob/../b//./c/"
      = .ok (parse "/srv/b/c") := by
    decide +kernel
  obtain ⟨-, -, hnormalized⟩ := normalize_canonical hcwd hpath
  exact ⟨hcwd, hpath, hnormalized⟩

end GitPersona.Path
