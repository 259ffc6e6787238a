/-
The characters of a query that are found in order in a text. Each is
looked for after the one found before it, and one that is not found is
passed over for good. Those that are found are a subsequence of both
texts, though not always a longest one, and they are the whole query
exactly when it abbreviates the text (`placedCount_spec`).

# Why the first occurrence will do

Nothing that was found is ever given up for a later occurrence of the
same character. For an abbreviation this costs nothing: before its first
occurrence a character cannot be placed, so wherever the query is placed
as a whole, all that follows the character stands after the first
occurrence already (`sublist_after_first`). For other queries it can
cost much, since a character found near the end of the text leaves those
after it no room.
-/
import GitPersona.Lookup.Similarity
import Mathlib.Data.List.TakeWhile
import Mathlib.Data.Nat.SuccPred
import Mathlib.Order.SuccPred.Archimedean

namespace GitPersona.Lookup

variable {c : Char} {q t before rest : List Char}

-- ================================================ statement vocabulary

/-- How long the texts are whose characters stand in order, with any gaps,
in both texts. -/
def commonLengths (q t : List Char) : Set Nat :=
  {n | ∃ s : List Char, s.Sublist q ∧ s.Sublist t ∧ s.length = n}

-- ======================================================= one character

theorem dropWhile_append_of_notMem (hc : c ∉ before) (t : List Char) :
    (before ++ t).dropWhile (· != c) = t.dropWhile (· != c) := by
  apply List.dropWhile_append_of_pos
  intro d hd
  exact bne_iff_ne.2 (ne_of_mem_of_not_mem hd hc)

/-- A character that the text lacks is passed over. -/
theorem placedCount_of_notMem (hc : c ∉ t) :
    placedCount (c :: q) t = placedCount q t := by
  have hnone := dropWhile_append_of_notMem hc []
  rw [List.append_nil, List.dropWhile_nil] at hnone
  rw [placedCount, hnone]

/-- A character is found where it first occurs, and the next one is looked
for after it. -/
theorem placedCount_of_first (hc : c ∉ before) :
    placedCount (c :: q) (before ++ c :: rest) = 1 + placedCount q rest := by
  have hfound := dropWhile_append_of_notMem hc (c :: rest)
  rw [List.dropWhile_cons_of_neg (by simp)] at hfound
  rw [placedCount, hfound]

/-- Wherever a query is placed as a whole, what follows its first character
stands after the first occurrence of it. -/
theorem sublist_after_first (hc : c ∉ before)
    (h : (c :: q).Sublist (before ++ c :: rest)) :
    q.Sublist rest := by
  obtain ⟨early, late, hsplit, hearly, hlate⟩ := List.sublist_append_iff.1 h
  cases early with
  | nil =>
      rw [List.nil_append] at hsplit
      rw [← hsplit] at hlate
      exact List.cons_sublist_cons.1 hlate
  | cons d early =>
      obtain ⟨rfl, -⟩ := List.cons.inj hsplit
      exact absurd (hearly.subset List.mem_cons_self) hc

-- ============================================================ all of them

/-- What is found is as long as some text whose characters stand in
order in both. -/
theorem placedCount_mem_commonLengths (q t : List Char) :
    placedCount q t ∈ commonLengths q t := by
  induction q generalizing t with
  | nil => exact ⟨[], List.Sublist.slnil, List.nil_sublist t, rfl⟩
  | cons c q ih =>
      by_cases hc : c ∈ t
      · obtain ⟨before, rest, rfl, hfirst⟩ := List.eq_append_cons_of_mem hc
        obtain ⟨s, hquery, htext, hlength⟩ := ih rest
        refine ⟨c :: s, hquery.cons_cons c, ?_, ?_⟩
        · exact (htext.cons_cons c).trans
            (List.sublist_append_right before (c :: rest))
        · rw [placedCount_of_first hfirst, List.length_cons, hlength,
            Nat.add_comm]
      · obtain ⟨s, hquery, htext, hlength⟩ := ih t
        refine ⟨s, hquery.cons c, htext, ?_⟩
        rw [placedCount_of_notMem hc, hlength]

/-- An abbreviation is found as a whole. -/
theorem placedCount_of_sublist (h : q.Sublist t) :
    placedCount q t = q.length := by
  induction q generalizing t with
  | nil => rfl
  | cons c q ih =>
      have hc : c ∈ t := h.subset List.mem_cons_self
      -- wherever the query is placed, its rest is still found after the first
      -- occurrence
      obtain ⟨before, rest, rfl, hfirst⟩ := List.eq_append_cons_of_mem hc
      rw [placedCount_of_first hfirst, ih (sublist_after_first hfirst h),
        List.length_cons, Nat.add_comm]

-- ================================================================ bounds

theorem length_mem_upperBounds (q t : List Char) :
    q.length ∈ upperBounds (commonLengths q t) := by
  rintro n ⟨s, hquery, -, rfl⟩
  exact hquery.length_le

theorem placedCount_le (q t : List Char) : placedCount q t ≤ q.length :=
  length_mem_upperBounds q t (placedCount_mem_commonLengths q t)

theorem placedCount_eq_length_iff :
    placedCount q t = q.length ↔ q.Sublist t := by
  constructor
  · intro hall
    obtain ⟨s, hquery, htext, hlength⟩ := placedCount_mem_commonLengths q t
    rw [← hquery.eq_of_length (hlength.trans hall)]
    exact htext
  · exact placedCount_of_sublist

theorem exists_isGreatest_commonLengths (q t : List Char) :
    ∃ longest, IsGreatest (commonLengths q t) longest :=
  BddAbove.exists_isGreatest_of_nonempty ⟨_, length_mem_upperBounds q t⟩
    ⟨_, placedCount_mem_commonLengths q t⟩

-- ============================================================= the score

/-- The score by subsequence comes from as many characters as some common
subsequence has, which is never more than a longest one has, and is all of the
query exactly for an abbreviation. -/
theorem placedCount_spec (q t : List Char) :
    similarity q t .subsequence = 0.7 * Float.ofNat (placedCount q t)
      / Float.ofNat q.length
      ∧ placedCount q t ∈ commonLengths q t
      ∧ (∃ longest, IsGreatest (commonLengths q t) longest
        ∧ placedCount q t ≤ longest)
      ∧ (placedCount q t = q.length ↔ q.Sublist t) := by
  have hcommon := placedCount_mem_commonLengths q t
  obtain ⟨longest, hlongest⟩ := exists_isGreatest_commonLengths q t
  exact ⟨rfl, hcommon, ⟨longest, hlongest, hlongest.2 hcommon⟩,
    placedCount_eq_length_iff⟩

-- the first character is found last, and a longest common subsequence is
-- without it
example : placedCount "kwork".toList "work".toList = 1 := by decide

end GitPersona.Lookup
