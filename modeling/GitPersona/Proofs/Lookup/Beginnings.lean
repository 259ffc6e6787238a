/-
A value that is typed from its beginning. By all algorithms but one,
each further character of it scores no less, up to one for the whole
value, and so it is for the best of them (`fieldScore_beginnings`).

# Why no algorithm falls behind

A beginning of a value is a part of it, which is a constant score; it
covers a share of it, which grows; and what it lacks is a run of
characters at the end, which is all that the edit distance counts
(`editDistance_append`). The shares are rounded, but of greater values
not to less. Only the count of characters that are found in order is
left out. It is complete for every beginning, but is weighted by a
product that is rounded before the division, so that the score goes up
and down by the last place.
-/
import GitPersona.Proofs.Lookup.Fields

namespace GitPersona.Lookup

variable {q r t : List Char} {query shorter longer value : String}
    {algorithms : List Algorithm}
  {a : Algorithm} {f : Field}

-- ================================================ statement vocabulary

/-- What a field scores, which is nothing without a match. -/
def fieldScore (algorithms : List Algorithm) (query value : String)
    (f : Field) : Float :=
  match scoreField algorithms query value f with
  | none => 0.0
  | some fm => fm.score

-- ================================================================ fields

theorem fieldScore_of_scoreField {fm : FieldMatch}
    (h : scoreField algorithms query value f = some fm) :
    fieldScore algorithms query value f = fm.score := by
  unfold fieldScore
  rw [h]

/-- A field scores no less than any algorithm gives it. -/
theorem score_le_fieldScore (ha : a ∈ algorithms) (query value : String)
    (f : Field) :
    score a query value ≤ fieldScore algorithms query value f := by
  by_cases hpositive : 0.0 < score a query value
  · obtain ⟨fm, hfm⟩ := exists_scoreField ha hpositive f
    rw [fieldScore_of_scoreField hfm]
    exact (scoreField_spec hfm).2.2.2 a ha
  · have hzero : Number.IsNumber 0.0 :=
      (Number.isNumber_of_le (score_bounds a query value).1).1
    have hnone := Number.le_of_not_lt hzero (isNumber_score a query value)
      hpositive
    unfold fieldScore
    split
    · exact hnone
    · next fm hfm =>
      exact Number.le_trans hnone (Number.le_of_lt (scoreField_spec hfm).2.2.1)

/-- What bounds every algorithm bounds the score of a field. -/
theorem fieldScore_le {bound : Float} (hzero : 0.0 ≤ bound)
    (hbound : ∀ a ∈ algorithms, score a query value ≤ bound) :
    fieldScore algorithms query value f ≤ bound := by
  unfold fieldScore
  split
  · exact hzero
  · next fm hfm =>
    obtain ⟨-, ⟨a, ha, hscore⟩, -⟩ := scoreField_spec hfm
    rw [hscore]
    exact hbound a ha

-- ============================================================ algorithms

theorem editDistance_of_beginning (h : q <+: t) :
    editDistance q t = t.length - q.length := by
  obtain ⟨rest, rfl⟩ := h
  rw [editDistance_append, List.length_append, Nat.add_sub_cancel_left]

theorem similarity_beginnings (hq : q ≠ []) (hqr : q <+: r) (hrt : r <+: t)
    (ha : a ≠ .subsequence) : similarity q t a ≤ similarity r t a := by
  have hqt := hqr.trans hrt
  have hlength : 0 < q.length := List.length_pos_of_ne_nil hq
  have hshorter := hqr.length_le
  have hlonger := hrt.length_le
  cases a with
  | exact =>
      show (0.0 : Float) ≤ 0.0
      decide
  | leading =>
      rw [similarity_leading hqt, similarity_leading hrt]
      exact leading_mono hshorter hlonger (by omega)
  | substring =>
      rw [similarity_substring hqt, similarity_substring hrt]
      decide
  | levenshtein =>
      show 1.0 - ratio (editDistance q t) (max q.length t.length)
        ≤ 1.0 - ratio (editDistance r t) (max r.length t.length)
      rw [editDistance_of_beginning hqt, editDistance_of_beginning hrt,
        max_eq_right hqt.length_le, max_eq_right hlonger]
      exact levenshtein_mono (by omega) (by omega) (by omega)
  | subsequence => exact absurd rfl ha

/-- A longer beginning of a value scores no less. -/
theorem score_beginnings (hquery : Text.normalize shorter ≠ [])
    (hshorter : Text.normalize shorter <+: Text.normalize longer)
    (hlonger : Text.normalize longer <+: Text.normalize value)
    (ha : a ≠ .subsequence) :
    score a shorter value ≤ score a longer value := by
  by_cases hwhole : Text.normalize longer = Text.normalize value
  · rw [score_of_normalize_eq hwhole]
    exact (score_bounds a shorter value).2
  · have hlongerQuery := hshorter.ne_nil hquery
    have hvalue := hlonger.ne_nil hlongerQuery
    have hpart : Text.normalize shorter ≠ Text.normalize value := by
      intro heq
      rw [heq] at hshorter
      exact hwhole (hlonger.eq_of_length_le hshorter.length_le)
    rw [score_of_normalize_ne hquery hvalue hpart,
      score_of_normalize_ne hlongerQuery hvalue hwhole]
    exact Number.clamp_le_clamp
      (similarity_beginnings hquery hshorter hlonger ha)

-- ================================================================ typing

/-- Typing more of a value never lowers the score of a field, and the
whole value brings it to one, for algorithms that do not count characters
found in order. -/
theorem fieldScore_beginnings (halgorithms : algorithms ≠ [])
    (hcount : .subsequence ∉ algorithms)
    (hquery : Text.normalize shorter ≠ [])
    (hshorter : Text.normalize shorter <+: Text.normalize longer)
    (hlonger : Text.normalize longer <+: Text.normalize value) (f : Field) :
    fieldScore algorithms shorter value f
      ≤ fieldScore algorithms longer value f
      ∧ (Text.normalize longer = Text.normalize value →
        fieldScore algorithms longer value f = 1.0) := by
  constructor
  · obtain ⟨best, hbest⟩ := List.exists_mem_of_ne_nil algorithms halgorithms
    have hzero := Number.le_trans (score_bounds best longer value).1
      (score_le_fieldScore hbest longer value f)
    refine fieldScore_le hzero fun a ha => ?_
    have hother : a ≠ .subsequence := by
      rintro rfl
      exact hcount ha
    exact Number.le_trans (score_beginnings hquery hshorter hlonger hother)
      (score_le_fieldScore ha longer value f)
  · intro hwhole
    obtain ⟨fm, hfm, hone⟩ :=
      scoreField_of_normalize_eq halgorithms hwhole.symm f
    rw [fieldScore_of_scoreField hfm, hone]

theorem fieldScore_beginnings_work :
    fieldScore [.substring, .levenshtein, .leading, .exact] " Wo" "Work" .name
        ≤ fieldScore [.substring, .levenshtein, .leading, .exact] "WORK" "Work"
          .name
      ∧ fieldScore [.substring, .levenshtein, .leading, .exact] "WORK" "Work"
        .name = 1.0 := by
  obtain ⟨hle, hone⟩ := @fieldScore_beginnings " Wo" "WORK" "Work"
    [.substring, .levenshtein, .leading, .exact] (by decide) (by decide)
      (by decide +kernel)
    (by decide +kernel) (by decide +kernel) .name
  exact ⟨hle, hone (by decide +kernel)⟩

-- all characters are found in order both times
example : fieldScore [.subsequence] "wor" "works" .name
    < fieldScore [.subsequence] "wo" "works" .name := by
  decide +kernel

end GitPersona.Lookup
