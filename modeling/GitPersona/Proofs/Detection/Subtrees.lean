/-
Two ways to give a subtree to a profile come to the same. An entry `d`
of the directories to be inside of, and the pattern `d/*` among the
directory patterns, select the same working directories, but for `d`
itself, which only the entry selects (`subtree_agrees`).

The entry is compared name by name, the pattern character by character,
with a star that runs over slashes. The two meet in the text of a path:
it starts with the text of a directory and a slash exactly when its
names go on where those of the directory end (`chars_below_iff`).
-/
import GitPersona.Proofs.Path.Nesting
import GitPersona.Proofs.Detection.Namespace
import GitPersona.Proofs.Detection.Patterns
import GitPersona.Proofs.Detection.Scanning

namespace GitPersona

-- ================================================== statement vocabulary

/-- A path starts where a directory does, and its names go on where those of
the directory end. -/
structure Path.Below (p q : Path) : Prop where
  anchor : p.anchor = q.anchor
  parts : q.parts <+: p.parts
  ne : p ≠ q

-- ======================================================== texts of paths

namespace Path

variable {p q : Path}

/-- A text starts with that of a directory and a slash exactly when it is the
text of a path below the directory. -/
theorem chars_below_iff (hq : q.parts ≠ []) :
    q.chars ++ ['/'] <+: p.chars ↔ p.Below q := by
  constructor
  · rintro ⟨rest, hrest⟩
    rw [List.append_assoc, List.singleton_append] at hrest
    refine ⟨?_, ⟨partsOf rest, ?_⟩, ?_⟩
    · rw [← anchorOf_chars p, ← hrest, anchorOf_chars_append hq]
    · rw [← partsOf_chars p, ← hrest, partsOf_slash_append, partsOf_chars]
    · rintro rfl
      simpa using congrArg List.length hrest
  · rintro ⟨hanchor, ⟨more, hparts⟩, hne⟩
    have hmore : more ≠ [] := by
      rintro rfl
      rw [List.append_nil] at hparts
      exact hne (eq_of_parts_eq hanchor hparts.symm)
    rw [chars_append hanchor hparts.symm hq hmore]
    exact ⟨_, List.append_assoc _ _ _⟩

theorem mem_ancestors {d : Path} (h : d ∈ p.ancestors) :
    d.anchor = p.anchor ∧ d.parts <+: p.parts := by
  obtain ⟨n, -, rfl⟩ := List.mem_map.1 h
  exact ⟨rfl, List.take_prefix n p.parts⟩

/-- A path is below a directory as soon as one of its ancestors is. -/
theorem Below.of_mem_ancestors {d : Path} (h : d.Below q)
    (hd : d ∈ p.ancestors) : p.Below q := by
  obtain ⟨hsame, hup⟩ := mem_ancestors hd
  refine ⟨hsame.symm.trans h.anchor, h.parts.trans hup, ?_⟩
  rintro rfl
  exact h.ne (eq_of_parts_eq h.anchor (hup.eq_of_length_le h.parts.length_le))

theorem notMem_name (p : Path) : '/' ∉ p.name.toList := by
  unfold name
  cases hlast : p.parts.getLast? with
  | none => exact List.not_mem_nil
  | some part =>
      exact not_mem_of_isPart (p.proper part (List.mem_of_getLast? hlast))

end Path

-- ============================================================ the pattern

namespace Glob

variable {head text : List Char}

theorem accepts_star (text : List Char) :
    accepts .sensitive ['*'] text = true := by
  rw [accepts_iff_cut, elements, elements, ← List.append_nil text]
  exact Cut.run text Cut.done

/-- A start without wildcards and a star after it take the texts
with that start. -/
theorem accepts_append_star_iff (h : isLiteral head = true) :
    accepts .sensitive (head ++ ['*']) text = true ↔ head <+: text := by
  rw [accepts_append_iff h]
  constructor
  · rintro ⟨rest, htext, -⟩
    exact ⟨rest, htext.symm⟩
  · rintro ⟨rest, htext⟩
    exact ⟨rest, htext.symm, accepts_star rest⟩

end Glob

namespace Detection

open Glob (WildcardFree)

variable {p q : Path} {c : Context}

/-- The pattern of a subtree takes what starts with the text of its directory
and a slash. -/
theorem accepts_subtree_iff (hfree : WildcardFree q.chars) {text : List Char} :
    Glob.accepts .sensitive (q.text ++ "/*").toList text = true
      ↔ q.chars ++ ['/'] <+: text := by
  have hpattern : (q.text ++ "/*").toList = (q.chars ++ ['/']) ++ ['*'] := by
    simp [Path.text]
  have hliteral : Glob.isLiteral (q.chars ++ ['/']) = true :=
    Glob.isLiteral_iff.2 (List.forall_mem_append.2 ⟨hfree, by simp⟩)
  rw [hpattern, Glob.accepts_append_star_iff hliteral]

/-- It takes a path by its whole text alone: no name of a directory
holds a slash. -/
theorem patternTakes_subtree_iff (hq : q.parts ≠ [])
    (hfree : WildcardFree q.chars) :
    patternTakes (q.text ++ "/*") p = true ↔ p.Below q := by
  have hname : ¬q.chars ++ ['/'] <+: p.name.toList := fun hstart =>
    p.notMem_name (hstart.subset (List.mem_append_right _ List.mem_cons_self))
  rw [patternTakes, Bool.or_eq_true, accepts_subtree_iff hfree,
    accepts_subtree_iff hfree, or_iff_left hname, Path.chars_below_iff hq]

-- ============================================================== the rules

theorem directoryPath_eq_none_iff {profile : Profile} :
    directoryPath c profile = none
      ↔ ∀ d ∈ c.workingDir :: c.ancestors, ∀ pattern ∈ profile.matchPatterns,
          patternTakes pattern d = false := by
  rw [directoryPath, Option.map_eq_none_iff, nearestMatch?_eq_none_iff]

/-- With the pattern of a subtree the directory rule fires below its directory,
and only there. That the rule goes on to the ancestors adds nothing. -/
theorem isSome_directoryPath_subtree_iff {profile : Profile}
    (hq : q.parts ≠ [])
    (hfree : WildcardFree q.chars)
    (hpatterns : profile.matchPatterns = [q.text ++ "/*"]) :
    (directoryPath c profile).isSome = true ↔ c.workingDir.Below q := by
  rw [← Option.ne_none_iff_isSome, Ne, directoryPath_eq_none_iff, hpatterns]
  simp only [List.forall_mem_singleton, Bool.eq_false_iff, Ne,
    patternTakes_subtree_iff hq hfree]
  constructor
  · intro hfires
    by_contra hbelow
    refine hfires fun d hd hdbelow => ?_
    rcases List.mem_cons.1 hd with rfl | hmem
    · exact hbelow hdbelow
    · exact hbelow (hdbelow.of_mem_ancestors hmem)
  · exact fun hbelow hnone => hnone _ List.mem_cons_self hbelow

/-- A profile with one entry, of a normalized directory, does not stumble:
the rule on directories looks whether the working directory is in it. -/
theorem includeIfDir_of_normalized (homes : Homes) {profile : Profile}
    (hq : q.Normalized) (hentries : profile.includeIfDirs = [q.text]) :
    ∃ finding, includeIfDir homes c profile = .ok finding
      ∧ (finding.isSome = true
        ↔ c.workingDir.isWithin homes q.text = .ok true) := by
  have hclear : ¬Stumbles homes c profile := by
    rintro ⟨before, entry, after, hsplit, -, hrefused⟩
    have hmem : entry ∈ profile.includeIfDirs := by simp [hsplit]
    rw [hentries, List.mem_singleton] at hmem
    exact Path.not_refused_text hq (hmem ▸ hrefused)
  refine ⟨_, includeIfDir_eq_ok hclear, ?_⟩
  rw [Option.isSome_map, hentries, List.find?_isSome]
  simp only [List.mem_singleton, exists_eq_left, contains_iff]

-- =========================================================== main result

/-- A path is within a directory exactly when it is the directory or its text
is taken by the pattern of the directory's subtree. So the rule on the
directories to be inside of fires for the directory exactly where the rule on
directory patterns fires for that pattern, and in the directory itself. -/
theorem subtree_agrees (hq : q.Normalized) (hroot : q ≠ .root)
    (hfree : WildcardFree q.text.toList) :
    (∀ (homes : Homes) (p : Path),
        ∃ inside, p.isWithin homes q.text = .ok inside
          ∧ (inside = true ↔ p.text = q.text
            ∨ Glob.accepts .sensitive (q.text ++ "/*").toList p.text.toList
              = true))
      ∧ ∀ (homes : Homes) (c : Context) (a b : Profile),
          a.includeIfDirs = [q.text] → b.matchPatterns = [q.text ++ "/*"] →
          (∃ finding, includeIfDir homes c a = .ok finding
              ∧ (finding.isSome = true ↔ c.workingDir = q
                ∨ (directoryPath c b).isSome = true))
            ∧ (c.workingDir = q → directoryPath c b = none) := by
  have hanchor : q.anchor = .slash := (Path.normalized_iff.1 hq).1
  have hsome : q.parts ≠ [] := fun hnil =>
    hroot (Path.eq_of_parts_eq hanchor hnil)
  have hchars : WildcardFree q.chars := by
    rwa [Path.text, String.toList_ofList] at hfree
  have hwithin : ∀ (homes : Homes) (p : Path),
      p.isWithin homes q.text = .ok true ↔ p = q ∨ p.Below q := by
    intro homes p
    rw [Path.isWithin_text_iff hq]
    constructor
    · rintro ⟨hp, hparts⟩
      exact or_iff_not_imp_left.2 fun hne =>
        ⟨hp.trans hanchor.symm, hparts, hne⟩
    · rintro (rfl | hbelow)
      · exact ⟨hanchor, List.prefix_rfl⟩
      · exact ⟨hbelow.anchor.trans hanchor, hbelow.parts⟩
  refine ⟨fun homes p => ⟨_, Path.isWithin_text hq p, ?_⟩,
    fun homes c a b hentries hpatterns => ⟨?_, ?_⟩⟩
  · have htext : p.text = q.text ↔ p = q :=
      ⟨fun h => by rw [← Path.parse_text p, h, Path.parse_text],
        fun h => h ▸ rfl⟩
    rw [← Except.ok.injEq (ε := Path.Defect), ← Path.isWithin_text hq p,
      hwithin homes, htext, accepts_subtree_iff hchars, Path.text,
      String.toList_ofList, Path.chars_below_iff hsome]
  · obtain ⟨finding, hfinding, hfires⟩ :=
      includeIfDir_of_normalized homes (c := c) hq hentries
    refine ⟨finding, hfinding, ?_⟩
    rw [hfires, hwithin,
      isSome_directoryPath_subtree_iff hsome hchars hpatterns]
  · intro hself
    rw [← Option.not_isSome_iff_eq_none,
      isSome_directoryPath_subtree_iff hsome hchars hpatterns]
    exact fun hbelow => hbelow.ne hself

/-- A working directory two levels below `/home/ada/work`. -/
def workApiTests : Context :=
  { workingDir := .parse "/home/ada/work/api/tests" }

/-- A profile that gives its subtree as an entry. -/
def insideWork : Profile :=
  { name := "work", email := "a@work.example"
    includeIfDirs := ["/home/ada/work"] }

/-- A profile that gives the same subtree as a pattern. -/
def belowWork : Profile :=
  { name := "work", email := "a@work.example"
    matchPatterns := ["/home/ada/work/*"] }

/-- Both rules fire two levels below the directory. -/
theorem subtree_agrees_workApiTests :
    (Path.parse "/home/ada/work").Normalized
      ∧ Path.parse "/home/ada/work" ≠ .root
      ∧ WildcardFree (Path.parse "/home/ada/work").text.toList
      ∧ (∃ finding, includeIfDir Path.adaAndBob workApiTests insideWork
          = .ok (some finding))
      ∧ (directoryPath workApiTests belowWork).isSome = true := by
  have hnormalized : (Path.parse "/home/ada/work").Normalized :=
    Path.normalized_iff.2 ⟨by decide, by decide,
      by rw [← Path.holdsNull_iff]; decide⟩
  have hroot : Path.parse "/home/ada/work" ≠ .root := by decide
  have hfree : WildcardFree (Path.parse "/home/ada/work").text.toList :=
    Glob.isLiteral_iff.1 (by decide)
  have hfires : (directoryPath workApiTests belowWork).isSome = true := by
    decide +kernel
  obtain ⟨-, hrules⟩ := subtree_agrees hnormalized hroot hfree
  obtain ⟨⟨finding, hfinding, hsame⟩, -⟩ := hrules Path.adaAndBob
    workApiTests insideWork belowWork (by decide) (by decide)
  obtain ⟨found, rfl⟩ :=
    Option.isSome_iff_exists.1 (hsame.2 (Or.inr hfires))
  exact ⟨hnormalized, hroot, hfree, ⟨found, hfinding⟩, hfires⟩

end Detection

end GitPersona
