/-
A path lies in the directory that an entry of a profile stands for when
the names of the directory start the names of the path, name by name
(`isWithin_eq_ok_true_iff`). The entry is a text that a user writes, so
three things come before that comparison: a leading tilde stands for a
home directory, the text has to start at the root, and `..` has to be
gone through. `Denotes` says what comes out of them.

That the comparison goes by names is why the spelling of an entry does
not count, why `/work` does not contain `/workshop`, and why nesting is
an order on normalized directories. `isWithin_byNames` collects these.

Entries that stand for nothing contain nothing, with one exception: a NUL
in the name of a user, or in a name from the root, is not tolerated
(`Refused`). There the question has no answer.
-/
import GitPersona.Proofs.Path.Canonical

namespace GitPersona.Path

-- ================================================== statement vocabulary

/-- An entry stands for the directory at which one arrives by the names that
it passes from the root, none of which holds a NUL. A relative entry, or one
that starts with the tilde of a user that is not known, stands for none. -/
def Denotes (homes : Homes) (entry : String) (dir : List String) : Prop :=
  ∃ names, FromRoot homes entry names ∧ ¬NulIn names ∧ Arrives names dir

/-- The system refuses an entry: a NUL is in the name of the user that it
starts with, or in a name that it passes from the root. -/
inductive Refused (homes : Homes) (entry : String) : Prop
  | user {user : String} {names : List String} :
      ¬StartsAtRoot entry → partsOf entry.toList = ("~" ++ user) :: names →
      nul ∈ user.toList → Refused homes entry
  | names {names : List String} :
      FromRoot homes entry names → NulIn names → Refused homes entry

/-- Containment of paths in the directories that entries stand for goes by
whole names. -/
structure ByNames (homes : Homes)
    (within : Path → String → Except Defect Bool) : Prop where
  /-- The names of the directory start those of the path. -/
  iff : ∀ p entry, within p entry = .ok true
    ↔ p.anchor = .slash ∧ ∃ dir, Denotes homes entry dir ∧ dir <+: p.parts
  /-- There is an answer for every entry that is not refused, and
  for no other. -/
  refused : ∀ p entry defect, within p entry = .error defect
    ↔ defect = .nullByte ∧ Refused homes entry
  /-- A relative entry contains nothing, unless it starts with a tilde. -/
  relative : ∀ p entry, ¬StartsAtRoot entry →
    (∀ user names, partsOf entry.toList ≠ ("~" ++ user) :: names) →
    within p entry = .ok false
  /-- Nor does an entry that starts with the tilde of a user without a
  home directory. -/
  unknown : ∀ p entry user names, ¬StartsAtRoot entry →
    partsOf entry.toList = ("~" ++ user) :: names → nul ∉ user.toList →
    homes.of? user = none → within p entry = .ok false
  /-- A doubled slash counts once. -/
  doubled : ∀ p before after,
    within p (before ++ "//" ++ after) = within p (before ++ "/" ++ after)
  /-- A slash at the end does not count. -/
  trailing : ∀ p entry, entry ≠ "" →
    within p (entry ++ "/") = within p entry
  /-- A dot among the names does not count. -/
  dotted : ∀ p before after,
    within p (before ++ "/./" ++ after) = within p (before ++ "/" ++ after)
  /-- Nor does a dot in front of a relative entry. -/
  leadingDot : ∀ p entry, ¬StartsAtRoot entry →
    within p ("./" ++ entry) = within p entry
  /-- A name without a NUL and the `..` after it do not count. -/
  back : ∀ p before name after, isPart name.toList = true → name ≠ ".." →
    nul ∉ name.toList →
    before = "" ∨ StartsAtRoot before ∨ partsOf before.toList ≠ [] →
    within p (before ++ "/" ++ name ++ "/../" ++ after)
      = within p (before ++ "/" ++ after)
  /-- A sibling whose name goes on where that of the directory
  ends is outside. -/
  sibling : ∀ (p q : Path) names name more, q.Normalized →
    q.parts = names ++ [name] → more ≠ "" →
    names ++ [name ++ more] <+: p.parts → within p q.text = .ok false
  refl : ∀ p : Path, p.Normalized → within p p.text = .ok true
  trans : ∀ (p q : Path) entry, q.Normalized →
    within p q.text = .ok true → within q entry = .ok true →
    within p entry = .ok true

-- =========================================================== containment

variable {homes : Homes} {entry d e : String} {p q : Path}
  {dir : List String} {defect : Defect}

/-- A path is in a directory that the system finds from the root. -/
private theorem isWithin_eq_ok_true_iff_exists :
    isWithin homes p entry = .ok true
      ↔ ∃ base, (parse entry).expandHome homes = .ok base
          ∧ base.isAbsolute = true
          ∧ ∃ found, resolve root base = .ok found
            ∧ p.isAtOrBelow found = true := by
  unfold isWithin
  split
  · next hbase => simp [hbase]
  · next hbase => simp [hbase]
  · next base hbase =>
    by_cases habs : base.isAbsolute = true
    · cases hfound : resolve root base with
      | ok found => simp [hbase, habs, hfound, Except.map]
      | error defect => simp [hbase, habs, hfound, Except.map]
    · simp [hbase, habs]

/-- A path lies below another that its parts start with. -/
theorem isAtOrBelow_iff : p.isAtOrBelow q = true
    ↔ p.anchor = q.anchor ∧ q.parts <+: p.parts := by
  rw [isAtOrBelow, Bool.and_eq_true, beq_iff_eq, List.isPrefixOf_iff_prefix]

/-- An entry contains the paths below the directory that it denotes. -/
theorem isWithin_eq_ok_true_iff : isWithin homes p entry = .ok true
    ↔ p.anchor = .slash
      ∧ ∃ dir, Denotes homes entry dir ∧ dir <+: p.parts := by
  rw [isWithin_eq_ok_true_iff_exists]
  constructor
  · rintro ⟨base, hbase, habs, found, hfound, hbelow⟩
    obtain ⟨hnul, rfl⟩ := resolve_eq_ok_iff.1 hfound
    rw [join_of_isAbsolute habs] at hnul hbelow
    rw [if_pos habs, isAtOrBelow_iff] at hbelow
    have hnames := fromRoot_iff.2 ⟨base, hbase, habs, rfl⟩
    exact ⟨hbelow.1, _, ⟨_, hnames, hnul, arrives_collapse base.parts⟩,
      hbelow.2⟩
  · rintro ⟨hanchor, dir, ⟨names, hnames, hnul, harrives⟩, hstart⟩
    obtain ⟨base, hbase, habs, rfl⟩ := fromRoot_iff.1 hnames
    rw [arrives_iff.1 harrives] at hstart
    refine ⟨base, hbase, habs, base.collapsed .slash, ?_, ?_⟩
    · rw [resolve_eq_ok_iff, join_of_isAbsolute habs, if_pos habs]
      exact ⟨hnul, rfl⟩
    · exact isAtOrBelow_iff.2 ⟨hanchor, hstart⟩

/-- An entry cannot be expanded over a NUL exactly if the name of the user
that it starts with holds one. -/
theorem expandHome_parse_eq_nullByte_iff :
    (parse entry).expandHome homes = .error .nullByte
      ↔ ∃ user names, ¬StartsAtRoot entry
        ∧ partsOf entry.toList = ("~" ++ user) :: names
        ∧ nul ∈ user.toList := by
  rw [expandHome_eq_error_iff]
  simp only [directory_eq_error_iff, reduceCtorEq, false_and, and_false,
    or_false, and_true, exists_and_left]
  rw [show (parse entry).anchor = .relative ↔ ¬StartsAtRoot entry from
    anchorOf_eq_relative_iff]
  rfl

/-- There is no answer exactly for the entries that are refused. -/
theorem isWithin_eq_error_iff : isWithin homes p entry = .error defect
    ↔ defect = .nullByte ∧ Refused homes entry := by
  constructor
  · intro h
    -- expanding the tilde comes first, and only what is absolute then
    -- is looked for in the system
    unfold isWithin at h
    split at h
    · cases h
    · next hbase =>
      cases h
      obtain ⟨user, names, hrel, hparts, hnul⟩ :=
        expandHome_parse_eq_nullByte_iff.1 hbase
      exact ⟨rfl, .user hrel hparts hnul⟩
    · next base hbase =>
      split at h
      · next habs =>
        cases hfound : resolve root base with
        | ok found =>
            rw [hfound] at h
            cases h
        | error defect' =>
            rw [hfound] at h
            cases h
            obtain ⟨hdefect, hnul⟩ := resolve_eq_error_iff.1 hfound
            rw [join_of_isAbsolute habs] at hnul
            have hnames := fromRoot_iff.2 ⟨base, hbase, habs, rfl⟩
            exact ⟨hdefect, .names hnames hnul⟩
      · cases h
  · rintro ⟨rfl, hrefused⟩
    cases hrefused with
    | user hrel hparts hnul =>
        unfold isWithin
        rw [expandHome_parse_eq_nullByte_iff.2 ⟨_, _, hrel, hparts, hnul⟩]
    | names hnames hnul =>
        obtain ⟨base, hbase, habs, rfl⟩ := fromRoot_iff.1 hnames
        have hfound : resolve root base = .error .nullByte := by
          rw [resolve_eq_error_iff, join_of_isAbsolute habs]
          exact ⟨rfl, hnul⟩
        unfold isWithin
        rw [hbase]
        dsimp only
        rw [if_pos habs, hfound]
        rfl

/-- An entry that is not refused and stands for no directory
contains nothing. -/
theorem isWithin_eq_ok_false (hrefused : ¬Refused homes entry)
    (hnone : ∀ dir, ¬Denotes homes entry dir) (p : Path) :
    isWithin homes p entry = .ok false := by
  cases hwithin : isWithin homes p entry with
  | error defect =>
      exact absurd (isWithin_eq_error_iff.1 hwithin).2 hrefused
  | ok inside =>
      cases inside with
      | false => rfl
      | true =>
          obtain ⟨-, dir, hdir, -⟩ := isWithin_eq_ok_true_iff.1 hwithin
          exact absurd hdir (hnone dir)

/-- An entry that passes no names from the root contains nothing, as long as
no user is refused that it starts with. -/
theorem isWithin_of_not_fromRoot
    (hnames : ∀ names, ¬FromRoot homes entry names)
    (huser : ∀ user names,
      partsOf entry.toList = ("~" ++ user) :: names → nul ∉ user.toList)
    (p : Path) : isWithin homes p entry = .ok false := by
  have hrefused : ¬Refused homes entry := by
    intro hrefused
    cases hrefused with
    | user _ hparts hnul => exact huser _ _ hparts hnul
    | names hfrom _ => exact hnames _ hfrom
  refine isWithin_eq_ok_false hrefused ?_ p
  rintro dir ⟨names, hfrom, -⟩
  exact hnames names hfrom

/-- A name tells the user that its tilde stands before. -/
theorem user_eq_of_parts_eq {user user' : String} {xs ys : List String}
    (h : ("~" ++ user) :: xs = ("~" ++ user') :: ys) : user = user' := by
  have hname := congrArg String.toList (List.cons.inj h).1
  rw [String.toList_append, String.toList_append] at hname
  exact String.toList_inj.1 (List.append_cancel_left hname)

/-- A text that neither starts at the root nor with a tilde passes no names
from the root. -/
theorem not_fromRoot_of_relative (hrel : ¬StartsAtRoot entry)
    (htilde : ∀ user names, partsOf entry.toList ≠ ("~" ++ user) :: names)
    (names : List String) : ¬FromRoot homes entry names := by
  intro hfrom
  cases hfrom with
  | absolute habs => exact hrel habs
  | underHome _ hparts _ _ _ => exact htilde _ _ hparts

/-- Nor does a text that starts with the tilde of a user without a home
directory. -/
theorem not_fromRoot_of_homeless {user : String} {rest : List String}
    (hrel : ¬StartsAtRoot entry)
    (hparts : partsOf entry.toList = ("~" ++ user) :: rest)
    (hhome : homes.of? user = none) (names : List String) :
    ¬FromRoot homes entry names := by
  intro hfrom
  cases hfrom with
  | absolute habs => exact hrel habs
  | underHome _ hparts' _ hhome' _ =>
      rw [user_eq_of_parts_eq (hparts.symm.trans hparts'), hhome'] at hhome
      cases hhome

/-- Entries that stand for the same directories, and are refused together,
contain the same paths. -/
theorem isWithin_congr
    (h : ∀ dir, Denotes homes d dir ↔ Denotes homes e dir)
    (hrefused : Refused homes d ↔ Refused homes e) (p : Path) :
    isWithin homes p d = isWithin homes p e := by
  have htrue : isWithin homes p d = .ok true
      ↔ isWithin homes p e = .ok true := by
    simp only [isWithin_eq_ok_true_iff, h]
  have herror : ∀ defect, isWithin homes p d = .error defect
      ↔ isWithin homes p e = .error defect := by
    simp only [isWithin_eq_error_iff, hrefused, implies_true]
  cases hd : isWithin homes p d with
  | error defect => exact ((herror defect).1 hd).symm
  | ok inside =>
      cases he : isWithin homes p e with
      | error defect => rw [← hd, (herror defect).2 he]
      | ok inside' =>
          rw [hd, he, Except.ok.injEq, Except.ok.injEq,
            ← Bool.eq_iff_iff] at htrue
          rw [htrue]

-- ================================================ normalized directories

/-- A normalized path is absolute. -/
theorem isAbsolute_of_normalized (h : p.Normalized) :
    p.isAbsolute = true := by
  rw [isAbsolute, (normalized_iff.1 h).1]
  rfl

/-- The text of a normalized directory passes its own names. -/
theorem fromRoot_text_iff (h : q.Normalized) {names : List String} :
    FromRoot homes q.text names ↔ names = q.parts := by
  have habs := isAbsolute_of_normalized h
  rw [fromRoot_iff, parse_text, expandHome_of_isAbsolute habs]
  constructor
  · rintro ⟨base, hbase, -, rfl⟩
    cases hbase
    rfl
  · rintro rfl
    exact ⟨q, rfl, habs, rfl⟩

/-- The text of a normalized directory stands for its own names. -/
theorem denotes_text_iff (h : q.Normalized) :
    Denotes homes q.text dir ↔ dir = q.parts := by
  obtain ⟨-, hup, hnul⟩ := normalized_iff.1 h
  unfold Denotes
  simp only [fromRoot_text_iff h, exists_eq_left, and_iff_right hnul,
    arrives_iff, collapse_eq_self hup]

/-- The text of a normalized path is not refused. -/
theorem not_refused_text (h : q.Normalized) : ¬Refused homes q.text := by
  intro hrefused
  cases hrefused with
  | user hrel _ _ =>
      rw [← isAbsolute_parse, parse_text] at hrel
      exact hrel (isAbsolute_of_normalized h)
  | names hnames hnul =>
      rw [fromRoot_text_iff h] at hnames
      exact (normalized_iff.1 h).2.2 (hnames ▸ hnul)

/-- What is inside a normalized directory starts with its names. -/
theorem isWithin_text (h : q.Normalized) (p : Path) :
    isWithin homes p q.text
      = .ok (decide (p.anchor = .slash ∧ q.parts <+: p.parts)) := by
  cases hwithin : isWithin homes p q.text with
  | error defect =>
      exact absurd (isWithin_eq_error_iff.1 hwithin).2 (not_refused_text h)
  | ok inside =>
      have htrue : isWithin homes p q.text = .ok true
          ↔ p.anchor = .slash ∧ q.parts <+: p.parts := by
        simp only [isWithin_eq_ok_true_iff, denotes_text_iff h,
          exists_eq_left]
      rw [hwithin, Except.ok.injEq] at htrue
      rw [Except.ok.injEq, Bool.eq_iff_iff, htrue, decide_eq_true_iff]

/-- The text of a normalized path contains the paths that start
with its parts. -/
theorem isWithin_text_iff (h : q.Normalized) :
    isWithin homes p q.text = .ok true
      ↔ p.anchor = .slash ∧ q.parts <+: p.parts := by
  rw [isWithin_text h, Except.ok.injEq, decide_eq_true_iff]

-- ============================================================= spellings

/-- With a slash after it, a text starts at the root when it is empty or
does so itself. -/
theorem startsAtRoot_append_slash {cs ds : List Char} :
    ['/'] <+: cs ++ '/' :: ds ↔ cs = [] ∨ ['/'] <+: cs := by
  cases cs with
  | nil => simp
  | cons c cs => simp [List.cons_prefix_cons]

/-- What a text passes from the root goes by its first character
and its parts. -/
theorem FromRoot.congr {names : List String}
    (hroot : StartsAtRoot d ↔ StartsAtRoot e)
    (hparts : partsOf d.toList = partsOf e.toList)
    (h : FromRoot homes d names) : FromRoot homes e names := by
  cases h with
  | absolute habs =>
      rw [hparts]
      exact .absolute (hroot.1 habs)
  | underHome hrel htilde hnul hhome hbase =>
      exact .underHome (mt hroot.2 hrel) (hparts ▸ htilde) hnul hhome hbase

/-- Whether an entry is refused goes by its first character and its parts. -/
theorem Refused.congr (hroot : StartsAtRoot d ↔ StartsAtRoot e)
    (hparts : partsOf d.toList = partsOf e.toList)
    (h : Refused homes d) : Refused homes e := by
  cases h with
  | user hrel htilde hnul =>
      exact .user (mt hroot.2 hrel) (hparts ▸ htilde) hnul
  | names hnames hnul => exact .names (hnames.congr hroot hparts) hnul

/-- Entries with the same parts, both from the root or neither, contain
the same paths. -/
theorem isWithin_respelled (hroot : StartsAtRoot d ↔ StartsAtRoot e)
    (hparts : partsOf d.toList = partsOf e.toList) (p : Path) :
    isWithin homes p d = isWithin homes p e := by
  refine isWithin_congr (fun dir => exists_congr fun _ => ?_) ?_ p
  · exact and_congr_left fun _ => ⟨FromRoot.congr hroot hparts,
      FromRoot.congr hroot.symm hparts.symm⟩
  · exact ⟨Refused.congr hroot hparts,
      Refused.congr hroot.symm hparts.symm⟩

/-- A NUL in some names and others is in either. -/
theorem nulIn_append {xs ys : List String} :
    NulIn (xs ++ ys) ↔ NulIn xs ∨ NulIn ys := by
  simp [NulIn, or_and_right, exists_or]

/-- Going down into a name and back up leads nowhere. -/
theorem collapse_back {name : String} (h : name ≠ "..")
    (before after : List String) :
    collapse (before ++ name :: ".." :: after)
      = collapse (before ++ after) := by
  have hback : ∀ passed, enter (enter passed name) ".." = passed := by
    intro passed
    rw [enter, if_pos rfl, enter, if_neg h, List.tail_cons]
  rw [collapse, collapse, List.foldl_append, List.foldl_append,
    List.foldl_cons, List.foldl_cons, hback]

/-- Texts from the root with the same front pass names with the same front,
under a home directory too as long as the tilde is in the front. -/
theorem FromRoot.replace {front ys zs names : List String}
    (hroot : StartsAtRoot d ↔ StartsAtRoot e)
    (hd : partsOf d.toList = front ++ ys)
    (he : partsOf e.toList = front ++ zs)
    (hfront : StartsAtRoot d ∨ front ≠ []) (h : FromRoot homes d names) :
    ∃ start, names = start ++ ys ∧ FromRoot homes e (start ++ zs) := by
  cases h with
  | absolute habs => exact ⟨front, hd, he ▸ .absolute (hroot.1 habs)⟩
  | @underHome user home _ hrel htilde hnul hhome hbase =>
      obtain ⟨first, front', rfl⟩ :=
        List.exists_cons_of_ne_nil (hfront.resolve_left hrel)
      rw [hd, List.cons_append] at htilde
      obtain ⟨rfl, rfl⟩ := List.cons.inj htilde
      refine ⟨partsOf home.toList ++ front',
        (List.append_assoc _ _ _).symm, ?_⟩
      rw [List.append_assoc]
      exact .underHome (mt hroot.2 hrel) he hnul hhome hbase

/-- Texts with the same front are refused together as long as what follows
it holds a NUL in both or in neither. -/
theorem Refused.replace {front ys zs : List String}
    (hroot : StartsAtRoot d ↔ StartsAtRoot e)
    (hd : partsOf d.toList = front ++ ys)
    (he : partsOf e.toList = front ++ zs)
    (hfront : StartsAtRoot d ∨ front ≠ []) (hnul : NulIn ys → NulIn zs)
    (h : Refused homes d) : Refused homes e := by
  cases h with
  | user hrel htilde hin =>
      obtain ⟨first, front', rfl⟩ :=
        List.exists_cons_of_ne_nil (hfront.resolve_left hrel)
      rw [hd, List.cons_append] at htilde
      obtain ⟨rfl, -⟩ := List.cons.inj htilde
      exact .user (mt hroot.2 hrel) he hin
  | names hnames hin =>
      obtain ⟨start, rfl, hstart⟩ := hnames.replace hroot hd he hfront
      refine .names hstart ?_
      rw [nulIn_append] at hin ⊢
      exact hin.imp_right hnul

/-- Entries that differ in a name without a NUL and the `..` after it
contain the same paths. -/
theorem isWithin_back {name : String} (front rest : List String)
    (hname : name ≠ "..") (hnul : nul ∉ name.toList)
    (hroot : StartsAtRoot d ↔ StartsAtRoot e)
    (hd : partsOf d.toList = front ++ name :: ".." :: rest)
    (he : partsOf e.toList = front ++ rest)
    (hfront : StartsAtRoot d ∨ front ≠ []) (p : Path) :
    isWithin homes p d = isWithin homes p e := by
  have hsame : NulIn (name :: ".." :: rest) ↔ NulIn rest := by
    have hup : nul ∉ "..".toList := by decide
    simp [NulIn, -String.reduceToList, hnul, hup]
  have hfront' : StartsAtRoot e ∨ front ≠ [] := hfront.imp_left hroot.1
  have hcollapse := collapse_back hname
  -- the front stays, and with it the home directory that it may stand for
  refine isWithin_congr (fun dir => ⟨?_, ?_⟩) ⟨?_, ?_⟩ p
  · rintro ⟨names, hnames, hin, harrives⟩
    obtain ⟨start, rfl, hstart⟩ := hnames.replace hroot hd he hfront
    rw [nulIn_append, hsame, ← nulIn_append] at hin
    rw [arrives_iff, hcollapse, ← arrives_iff] at harrives
    exact ⟨_, hstart, hin, harrives⟩
  · rintro ⟨names, hnames, hin, harrives⟩
    obtain ⟨start, rfl, hstart⟩ :=
      hnames.replace hroot.symm he hd hfront'
    rw [nulIn_append, ← hsame, ← nulIn_append] at hin
    rw [arrives_iff, ← hcollapse, ← arrives_iff] at harrives
    exact ⟨_, hstart, hin, harrives⟩
  · exact Refused.replace hroot hd he hfront hsame.1
  · exact Refused.replace hroot.symm he hd hfront' hsame.2

/-- A single name is its own only part. -/
theorem partsOf_name {name : String} (h : isPart name.toList = true) :
    partsOf name.toList = [name] := by
  have hone := @partsOf_intercalate [name] (by simpa using h)
  rwa [List.map_singleton, List.intercalate_singleton] at hone

-- ===================================================== slashes and dots

/-- A doubled slash counts once. -/
theorem isWithin_doubledSlash (p : Path) (before after : String) :
    isWithin homes p (before ++ "//" ++ after)
      = isWithin homes p (before ++ "/" ++ after) := by
  refine isWithin_respelled ?_ ?_ p
  · simp [StartsAtRoot, startsAtRoot_append_slash]
  · simp [partsOf_slash_append, partsOf_cons_slash]

/-- A slash at the end does not count. -/
theorem isWithin_trailingSlash (p : Path) (h : entry ≠ "") :
    isWithin homes p (entry ++ "/") = isWithin homes p entry := by
  have hsome : entry.toList ≠ [] := mt String.toList_eq_nil_iff.1 h
  refine isWithin_respelled ?_ ?_ p
  · simp [StartsAtRoot, startsAtRoot_append_slash, hsome]
  · rw [String.toList_append]
    exact (partsOf_slash_append entry.toList []).trans (List.append_nil _)

/-- A dot among the names does not count. -/
theorem isWithin_dotted (p : Path) (before after : String) :
    isWithin homes p (before ++ "/./" ++ after)
      = isWithin homes p (before ++ "/" ++ after) := by
  have hdot : partsOf ('.' :: '/' :: after.toList) = partsOf after.toList :=
    partsOf_slash_append ['.'] after.toList
  refine isWithin_respelled ?_ ?_ p
  · simp [StartsAtRoot, startsAtRoot_append_slash]
  · simp [partsOf_slash_append, hdot]

/-- Nor does a dot in front of a relative entry. -/
theorem isWithin_leadingDot (p : Path) (h : ¬StartsAtRoot entry) :
    isWithin homes p ("./" ++ entry) = isWithin homes p entry := by
  refine isWithin_respelled (iff_of_false ?_ h) ?_ p
  · simp [StartsAtRoot]
  · rw [String.toList_append]
    exact partsOf_slash_append ['.'] entry.toList

/-- A name without a NUL and the `..` after it do not count, as long as the
name is not the first of a relative entry: it might be a tilde. -/
theorem isWithin_nameAndBack (p : Path) {before name after : String}
    (hname : isPart name.toList = true) (hup : name ≠ "..")
    (hnul : nul ∉ name.toList)
    (hfront :
      before = "" ∨ StartsAtRoot before ∨ partsOf before.toList ≠ []) :
    isWithin homes p (before ++ "/" ++ name ++ "/../" ++ after)
      = isWithin homes p (before ++ "/" ++ after) := by
  have hrest : partsOf ('.' :: '.' :: '/' :: after.toList)
      = ".." :: partsOf after.toList :=
    partsOf_slash_append ['.', '.'] after.toList
  have hroot : StartsAtRoot (before ++ "/" ++ after)
      ↔ before = "" ∨ StartsAtRoot before := by
    simp [StartsAtRoot, startsAtRoot_append_slash]
  have hroot' : StartsAtRoot (before ++ "/" ++ name ++ "/../" ++ after)
      ↔ before = "" ∨ StartsAtRoot before := by
    simp [StartsAtRoot, startsAtRoot_append_slash]
  refine isWithin_back (partsOf before.toList) (partsOf after.toList)
    hup hnul (hroot'.trans hroot.symm) ?_ ?_ ?_ p
  · simp [partsOf_slash_append, hrest, partsOf_name hname]
  · simp [partsOf_slash_append]
  · rw [hroot', or_assoc]
    exact hfront

-- =============================================================== nesting

/-- Two lists of names of which one goes on with a name where the other goes
on with a longer one do not start the same list. -/
theorem not_prefix_of_longer {names parts : List String}
    {name more : String} (hmore : more ≠ "")
    (hlonger : names ++ [name ++ more] <+: parts) :
    ¬names ++ [name] <+: parts := by
  intro hname
  have hstart := List.prefix_of_prefix_length_le hname hlonger (by simp)
  have hsame := List.append_cancel_left (hstart.eq_of_length (by simp))
  have hlength := congrArg String.length (List.head_eq_of_cons_eq hsame)
  rw [String.length_append] at hlength
  exact hmore (String.length_eq_zero_iff.1 (by omega))

/-- A sibling whose name goes on where that of the directory ends
is outside. -/
theorem isWithin_longerSibling {names : List String} {name more : String}
    (hq : q.Normalized) (hparts : q.parts = names ++ [name])
    (hmore : more ≠ "") (hlonger : names ++ [name ++ more] <+: p.parts) :
    isWithin homes p q.text = .ok false := by
  rw [isWithin_text hq, Except.ok.injEq, decide_eq_false_iff_not, hparts]
  rintro ⟨-, hinside⟩
  exact not_prefix_of_longer hmore hlonger hinside

/-- What is inside a directory that an entry contains is in the entry. -/
theorem isWithin_nested (hq : q.Normalized)
    (hpq : isWithin homes p q.text = .ok true)
    (hqd : isWithin homes q entry = .ok true) :
    isWithin homes p entry = .ok true := by
  obtain ⟨hanchor, hp⟩ := (isWithin_text_iff hq).1 hpq
  obtain ⟨-, dir, hdir, hstart⟩ := isWithin_eq_ok_true_iff.1 hqd
  exact isWithin_eq_ok_true_iff.2 ⟨hanchor, dir, hdir, hstart.trans hp⟩

-- =========================================================== main result

/-- Containment goes by names. -/
theorem isWithin_byNames (homes : Homes) :
    ByNames homes (isWithin homes) where
  iff _ _ := isWithin_eq_ok_true_iff
  refused _ _ _ := isWithin_eq_error_iff
  relative p _ hrel htilde :=
    isWithin_of_not_fromRoot (not_fromRoot_of_relative hrel htilde)
      (fun user names hparts => absurd hparts (htilde user names)) p
  unknown p entry user names hrel hparts hnul hhome := by
    have huser : ∀ user' names',
        partsOf entry.toList = ("~" ++ user') :: names' →
        nul ∉ user'.toList := by
      intro user' names' hparts'
      rw [← user_eq_of_parts_eq (hparts.symm.trans hparts')]
      exact hnul
    exact isWithin_of_not_fromRoot
      (not_fromRoot_of_homeless hrel hparts hhome) huser p
  doubled := isWithin_doubledSlash
  trailing p _ := isWithin_trailingSlash p
  dotted := isWithin_dotted
  leadingDot p _ := isWithin_leadingDot p
  back p _ _ _ := isWithin_nameAndBack p
  sibling _ _ _ _ _ := isWithin_longerSibling
  refl p hp :=
    (isWithin_text_iff hp).2 ⟨(normalized_iff.1 hp).1, List.prefix_rfl⟩
  trans _ _ _ := isWithin_nested

/-- A workshop is not in `work`, though its name starts so; and the way to
`work` may lead through another directory. -/
theorem isWithin_homeOfAda :
    (parse "/home/ada/work").Normalized
      ∧ isWithin adaAndBob (parse "/home/ada/workshop/x") "/home/ada/work"
        = .ok false
      ∧ isWithin adaAndBob (parse "/home/ada/work/x") "~/oss/../work"
        = .ok true := by
  have hnormalized : (parse "/home/ada/work").Normalized :=
    normalized_iff.2 ⟨by decide, by decide,
      by rw [← holdsNull_iff]; decide⟩
  have hnames := isWithin_byNames adaAndBob
  refine ⟨hnormalized, ?_, ?_⟩
  · exact hnames.sibling _ _ ["home", "ada"] "work" "shop" hnormalized
      (by decide) (by decide) ⟨["x"], by decide⟩
  · rw [show "~/oss/../work" = "~" ++ "/" ++ "oss" ++ "/../" ++ "work" by
        decide,
      hnames.back _ _ _ _ (by decide) (by decide) (by decide)
        (Or.inr (Or.inr (by decide)))]
    decide +kernel

/-- The name of a user with a NUL in it is not looked up. -/
theorem refused_userWithNul (homes : Homes) : Refused homes "~a\x00b" := by
  have hparts : partsOf "~a\x00b".toList = ("~" ++ "a\x00b") :: [] := by
    decide +kernel
  exact .user (by decide) hparts (by decide)

/-- There is no answer for an entry that starts with the tilde of a user
whose name holds a NUL, though nobody has a home directory under it. -/
theorem isWithin_userWithNul :
    (parse "/home/ada/work").Normalized
      ∧ isWithin adaAndBob (parse "/home/ada/work") "~a\x00b"
        = .error .nullByte := by
  have hnormalized : (parse "/home/ada/work").Normalized :=
    normalized_iff.2 ⟨by decide, by decide,
      by rw [← holdsNull_iff]; decide⟩
  exact ⟨hnormalized, by decide +kernel⟩

end GitPersona.Path
