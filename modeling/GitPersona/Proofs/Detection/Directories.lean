/-
The directory rule picks the nearest match, and that is the best one.
Directories are numbered from the working directory up, the root of the
file system left out. The rule fires for the least number of a directory
that some pattern takes, and names the first pattern of the profile that
takes it (`directoryPath_nearest`).

The rule stops at its first hit, so nothing further up is ever tried.
Nothing there could have counted for more: a nearer directory counts for
no less, whatever the numbers (`heightConfidence_le`), although the
confidence is computed in rounded arithmetic and has a floor.
-/
import GitPersona.Proofs.Detection.Patterns
import Mathlib.Logic.Function.Iterate

namespace GitPersona

-- ================================================== statement vocabulary

/-- The directories that count, by number: the working directory is 0, and
each one above it has the next number. Only the working directory itself may
be the root. -/
def Context.Numbered (c : Context) (k : Nat) (d : Path) : Prop :=
  d = Path.parent^[k] c.workingDir ∧ (k = 0 ∨ d.parts ≠ [])

/-- A pattern is the first to take the nearest directory that any
pattern takes. -/
structure Detection.NearestAt (c : Context) (patterns : List String) (k : Nat)
    (d : Path)
    (pattern : String) : Prop where
  numbered : c.Numbered k d
  takes : patternTakes pattern d = true
  first : ∃ earlier later, patterns = earlier ++ pattern :: later
    ∧ ∀ q ∈ earlier, patternTakes q d = false
  nearer : ∀ j e, j < k → c.Numbered j e →
    ∀ q ∈ patterns, patternTakes q e = false

-- ============================================================= going up

namespace Path

theorem parent_take {p : Path} {n : Nat} (h : n ≤ p.parts.length) :
    (p.take n).parent = p.take (n - 1) := by
  simp only [take, parent, mk.injEq, true_and]
  rw [List.dropLast_eq_take, List.take_take, List.length_take_of_le h,
    Nat.min_eq_left (Nat.sub_le _ _)]

/-- Going up leaves the first parts. -/
theorem iterate_parent (p : Path) (k : Nat) :
    parent^[k] p = p.take (p.parts.length - k) := by
  induction k with
  | zero => simp only [Function.iterate_zero, id, take, Nat.sub_zero,
      List.take_length]
  | succ k ih =>
      rw [Function.iterate_succ_apply', ih, parent_take (Nat.sub_le _ _),
        Nat.sub_sub]

theorem ancestors_eq_map (p : Path) :
    p.ancestors = (List.range (p.parts.length - 1)).map fun k =>
      parent^[k + 1] p := by
  unfold ancestors
  rw [List.reverse_range', List.map_map]
  refine List.map_congr_left fun k _ => ?_
  rw [Function.comp_apply, iterate_parent]
  congr 1
  omega

theorem parts_iterate_parent_ne_nil_iff {p : Path} {k : Nat} :
    (parent^[k] p).parts ≠ [] ↔ k < p.parts.length := by
  rw [iterate_parent]
  show p.parts.take _ ≠ [] ↔ _
  rw [Ne, List.take_eq_nil_iff, not_or, ← List.length_eq_zero_iff]
  omega

end Path

/-- The directories that the rule goes through are those that have a number,
in that order. -/
theorem Context.getElem?_directories {c : Context} {k : Nat} {d : Path} :
    (c.workingDir :: c.ancestors)[k]? = some d ↔ c.Numbered k d := by
  cases k with
  | zero =>
      rw [List.getElem?_cons_zero, Option.some.injEq]
      constructor
      · rintro rfl
        exact ⟨rfl, Or.inl rfl⟩
      · rintro ⟨rfl, -⟩
        rfl
  | succ k =>
      rw [List.getElem?_cons_succ, ancestors, Path.ancestors_eq_map,
        List.getElem?_map, Option.map_eq_some_iff]
      constructor
      · rintro ⟨i, hi, rfl⟩
        obtain ⟨hk, rfl⟩ := List.getElem?_eq_some_iff.1 hi
        rw [List.length_range] at hk
        rw [List.getElem_range]
        exact ⟨rfl, Or.inr (Path.parts_iterate_parent_ne_nil_iff.2 (by omega))⟩
      · rintro ⟨rfl, hroot⟩
        have hk := Path.parts_iterate_parent_ne_nil_iff.1
          (hroot.resolve_left k.succ_ne_zero)
        exact ⟨k, List.getElem?_range (by omega), rfl⟩

namespace Detection

variable {c : Context} {p : Profile}

-- ============================================================ the search

/-- What the search finds is the first pattern at the nearest directory that a
pattern takes. -/
theorem nearestAt_of_nearestMatch? {patterns : List String} {k : Nat}
    {d : Path} {pattern : String}
    (h : nearestMatch? patterns 0 (c.workingDir :: c.ancestors)
        = some (k, d, pattern)) :
    NearestAt c patterns k d pattern := by
  obtain ⟨before, after, hsplit, hk, hbefore, hpattern⟩ :=
    exists_of_nearestMatch? h
  rw [Nat.zero_add] at hk
  subst hk
  obtain ⟨htakes, earlier, later, hpatterns, hearlier⟩ :=
    List.find?_eq_some_iff_append.1 hpattern
  refine ⟨?_, htakes,
    ⟨earlier, later, hpatterns, fun q hq => by simpa using hearlier q hq⟩,
    fun j e hj he => ?_⟩
  · rw [← Context.getElem?_directories, hsplit]
    simp
  · rw [← Context.getElem?_directories, hsplit, List.getElem?_append_left hj]
      at he
    exact hbefore e (List.mem_of_getElem? he)

-- ============================================================== main result

/-- The directory rule is silent exactly when no pattern takes a directory
that has a number, whole or by its own name. Otherwise it names the first
pattern at the least number of a directory that one takes, is as sure as that
number makes it, and no pair of a directory and a pattern that takes it would
have made it surer. -/
theorem directoryPath_nearest (c : Context) (p : Profile) :
    (directoryPath c p = none
        ↔ ∀ k d, c.Numbered k d → ∀ q ∈ p.matchPatterns,
          patternTakes q d = false)
      ∧ ∀ f, directoryPath c p = some f →
        ∃ k d pattern, NearestAt c p.matchPatterns k d pattern
          ∧ f.confidence = (if k = 0 then 0.8
            else max (0.7 - 0.1 * Float.ofNat (k - 1)) 0.4)
          ∧ f.evidence = (if k = 0 then "directory " else "parent directory ")
            ++ d.text
              ++ " matches '" ++ pattern ++ "'"
          ∧ ∀ j e, c.Numbered j e → ∀ q ∈ p.matchPatterns,
            patternTakes q e = true →
              heightConfidence j ≤ f.confidence := by
  constructor
  · rw [directoryPath, Option.map_eq_none_iff, nearestMatch?_eq_none_iff]
    simp only [← Context.getElem?_directories, List.mem_iff_getElem?]
    exact ⟨fun h k d hd => h d ⟨k, hd⟩, fun h d ⟨k, hd⟩ => h k d hd⟩
  · intro f hf
    obtain ⟨⟨k, d, pattern⟩, hfound, rfl⟩ := Option.map_eq_some_iff.1 hf
    have hnearest := nearestAt_of_nearestMatch? hfound
    refine ⟨k, d, pattern, hnearest, ?_, rfl, fun j e he q hq htakes => ?_⟩
    · cases k with
      | zero => rfl
      | succ k => rfl
    · refine heightConfidence_le (Nat.le_of_not_lt fun hlt => ?_)
      rw [hnearest.nearer j e hlt he q hq] at htakes
      cases htakes

/-- A working directory four levels below the root. -/
def workApi : Context :=
  { workingDir := .parse "/home/a/work/api" }

/-- A profile whose first pattern takes a directory far above that one, and its
second one nearby. -/
def homeOrWork : Profile :=
  { name := "work", email := "a@work.example",
    matchPatterns := ["home", "wo*"] }

/-- The nearer directory is named, though the pattern that takes it
comes second. -/
theorem directoryPath_workApi :
    ∃ f, directoryPath workApi homeOrWork = some f
      ∧ f.evidence = "parent directory /home/a/work matches 'wo*'"
      ∧ ∃ k d pattern, NearestAt workApi homeOrWork.matchPatterns k d pattern
        ∧ f.confidence = if k = 0 then 0.8
          else max (0.7 - 0.1 * Float.ofNat (k - 1)) 0.4 := by
  have hevidence : (directoryPath workApi homeOrWork).map (·.evidence)
      = some "parent directory /home/a/work matches 'wo*'" := by
    decide +kernel
  obtain ⟨f, hf, hf'⟩ := Option.map_eq_some_iff.1 hevidence
  obtain ⟨-, hfires⟩ := directoryPath_nearest workApi homeOrWork
  obtain ⟨k, d, pattern, hnearest, hconfidence, -, -⟩ := hfires f hf
  exact ⟨f, hf, hf', k, d, pattern, hnearest, hconfidence⟩

end Detection

end GitPersona
