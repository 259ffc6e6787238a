/-
How long folded texts are. Full case folding turns a character into one
to three (`length_foldChar`), so it empties no text and makes none more
than three times as long; trimming only shortens. A normal form is
therefore empty exactly when trimming leaves nothing
(`normalize_eq_nil_iff`), and bounded by the length of its text
(`length_normalize_le`).
-/
import GitPersona.Text.Case

namespace GitPersona.Text

theorem length_foldChar (c : Char) :
    1 ≤ (foldChar c).length ∧ (foldChar c).length ≤ 3 := by
  unfold foldChar
  split
  · simp
  · split
    · next ns hns =>
      have hentries : ∀ entry ∈ Case.foldSequences, 1 ≤ entry.2.length
          ∧ entry.2.length ≤ 3 := by
        decide
      obtain ⟨before, after, heq, -⟩ := List.lookup_eq_some_iff.1 hns
      rw [List.length_map]
      exact hentries (c.toNat, ns) (heq ▸ by simp)
    · simp

theorem fold_eq_nil_iff {cs : List Char} : fold cs = [] ↔ cs = [] := by
  cases cs with
  | nil => simp [fold]
  | cons c cs =>
      have hsome := (length_foldChar c).1
      have hne : foldChar c ≠ [] := by
        intro hnil
        simp [hnil] at hsome
      simp [fold, hne]

theorem length_fold_le (cs : List Char) :
    (fold cs).length ≤ 3 * cs.length := by
  induction cs with
  | nil => simp [fold]
  | cons c cs ih =>
      have hhead := (length_foldChar c).2
      simp only [fold, List.flatMap_cons, List.length_append, List.length_cons]
        at ih ⊢
      omega

theorem length_strip_le (cs : List Char) : (strip cs).length ≤ cs.length := by
  have hdrop : ∀ cs : List Char, (cs.dropWhile isBlank).length ≤ cs.length :=
    fun cs =>
    (List.dropWhile_sublist isBlank).length_le
  calc (strip cs).length
      = ((cs.dropWhile isBlank).reverse.dropWhile isBlank).length := by
        simp [strip, trimWhile, dropEndWhile]
    _ ≤ (cs.dropWhile isBlank).reverse.length := hdrop _
    _ = (cs.dropWhile isBlank).length := List.length_reverse
    _ ≤ cs.length := hdrop cs

/-- Folding empties no text that trimming has left something of. -/
theorem normalize_eq_nil_iff {s : String} :
    normalize s = [] ↔ strip s.toList = [] :=
  fold_eq_nil_iff

theorem length_normalize_le (s : String) :
    (normalize s).length ≤ 3 * s.length := by
  have hfold := length_fold_le (strip s.toList)
  have hstrip := length_strip_le s.toList
  rw [String.length_toList] at hstrip
  unfold normalize
  omega

end GitPersona.Text
