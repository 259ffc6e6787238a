/-
The edit distance is the least number of edits that turn one text into
another (`isLeast_editDistance`), an edit being one character inserted,
deleted or replaced anywhere. The score by distance is therefore one
less the share of the longer text that has to be edited
(`score_levenshtein_spec`).

# Why fewer do not suffice

No edit moves the distance to a text by more than one, wherever it takes
place: at the front this is what a character more or another one there
can do, and a common beginning before the edit changes nothing about it
(`editDistance_append_near`). A run of edits ends at distance zero, so
it has at least as many as it set out from (`Edits.editDistance_le`).
Conversely the recursion of the distance spells out a run of just as
many (`edits_editDistance`): each of its three choices is an edit of the
first character.
-/
import GitPersona.Proofs.Lookup.Scores

namespace GitPersona.Lookup

open Number (HasValue)

-- ================================================ statement vocabulary

/-- One character of a text is inserted, deleted or replaced. -/
inductive Edit : List Char → List Char → Prop
  | insert (before : List Char) (c : Char) (after : List Char) :
      Edit (before ++ after) (before ++ c :: after)
  | delete (before : List Char) (c : Char) (after : List Char) :
      Edit (before ++ c :: after) (before ++ after)
  | replace (before : List Char) (c d : Char) (after : List Char) :
      Edit (before ++ c :: after) (before ++ d :: after)

/-- So many edits, one after the other, turn a text into another. -/
inductive Edits : Nat → List Char → List Char → Prop
  | none (t : List Char) : Edits 0 t t
  | next {n : Nat} {q r t : List Char} (first : Edit q r)
      (rest : Edits n r t) : Edits (n + 1) q t

/-- A text of fewer than `2 ^ 50` characters, as it is or in its
normal form. -/
def Short (text : String) : Prop :=
  text.length < 2 ^ 50 ∨ (Text.normalize text).length < 2 ^ 50

variable {c d : Char} {n : Nat} {q r t : List Char}
    {query target text : String}

-- ==================================================== one edit, anywhere

theorem editDistance_cons_cons_near
    (h : ∀ t, editDistance q t ≤ editDistance r t + 1) (c : Char)
    (t : List Char) : editDistance (c :: q) t ≤ editDistance
    (c :: r) t + 1 := by
  induction t with
  | nil =>
      have hlength := h []
      simp at hlength ⊢
      exact hlength
  | cons d t ih =>
      have hdeleted := h (d :: t)
      have hreplaced := h t
      rw [editDistance_cons_cons, editDistance_cons_cons]
      split <;> omega

/-- A common beginning keeps texts near each other. -/
theorem editDistance_append_near
    (h : ∀ t, editDistance q t ≤ editDistance r t + 1)
    (before t : List Char) :
    editDistance (before ++ q) t ≤ editDistance (before ++ r) t + 1 := by
  induction before generalizing t with
  | nil => exact h t
  | cons c before ih => exact editDistance_cons_cons_near ih c t

theorem editDistance_replace_near (c d : Char) (q t : List Char) :
    editDistance (c :: q) t ≤ editDistance (d :: q) t + 1 := by
  cases t with
  | nil => simp
  | cons e t =>
      calc editDistance (c :: q) (e :: t) ≤ editDistance q t + 1 :=
          editDistance_cons_cons_le c e q t
        _ ≤ editDistance (d :: q) (e :: t) + 1 :=
          Nat.succ_le_succ (editDistance_le_cons_cons d e q t)

/-- An edit brings a text nearer to another by one at most. -/
theorem Edit.near (h : Edit q r) (t : List Char) :
    editDistance q t ≤ editDistance r t + 1 := by
  cases h with
  | insert before c after =>
      exact editDistance_append_near
        (fun t => (editDistance_cons_near c after t).2) before t
  | delete before c after =>
      exact editDistance_append_near
        (fun t => (editDistance_cons_near c after t).1) before t
  | replace before c d after =>
      exact editDistance_append_near (editDistance_replace_near c d after)
        before t

/-- A run of edits is no shorter than the distance. -/
theorem Edits.editDistance_le (h : Edits n q t) : editDistance q t ≤ n := by
  induction h with
  | none t => exact (editDistance_eq_zero_iff.2 rfl).le
  | next first _ ih => exact (first.near _).trans (Nat.succ_le_succ ih)

-- ======================================================= a shortest run

theorem Edit.cons (h : Edit q r) (c : Char) : Edit (c :: q) (c :: r) := by
  cases h with
  | insert before d after => exact .insert (c :: before) d after
  | delete before d after => exact .delete (c :: before) d after
  | replace before d e after => exact .replace (c :: before) d e after

/-- A run of edits takes place after a character as well. -/
theorem Edits.cons (h : Edits n q t) (c : Char) :
    Edits n (c :: q) (c :: t) := by
  induction h with
  | none t => exact .none (c :: t)
  | next first _ ih => exact .next (first.cons c) ih

/-- Some run of edits is as short as the distance. -/
theorem edits_editDistance (q t : List Char) :
    Edits (editDistance q t) q t := by
  induction q generalizing t with
  | nil =>
      rw [editDistance_nil_left]
      induction t with
      | nil => exact .none []
      | cons d t ih => exact .next (.insert [] d []) (ih.cons d)
  | cons c q ih =>
      induction t with
      | nil =>
          have hrest := ih []
          rw [editDistance_nil_right] at hrest ⊢
          exact .next (.delete [] c q) hrest
      | cons d t ihRight =>
          rw [editDistance_cons_cons]
          split
          · next hcd =>
            rw [hcd]
            exact (ih t).cons d
          · rw [Nat.add_comm]
            -- the least of the three distances tells which edit comes first
            rcases min_choice (editDistance q (d :: t))
              (min (editDistance (c :: q) t) (editDistance q t)) with
                hleast | hleast
            · rw [hleast]
              exact .next (.delete [] c q) (ih (d :: t))
            · rw [hleast]
              rcases min_choice (editDistance (c :: q) t) (editDistance q t)
                with hleast | hleast
              · rw [hleast]
                exact .next (.insert [] d (c :: q)) (ihRight.cons d)
              · rw [hleast]
                exact .next (.replace [] c d q) ((ih t).cons d)

theorem isLeast_editDistance (q t : List Char) :
    IsLeast {n | Edits n q t} (editDistance q t) :=
  ⟨edits_editDistance q t, fun _ h => h.editDistance_le⟩

-- =========================================================== the score

/-- What a share leaves of one needs no clamping. -/
theorem one_sub_ratio_bounds {k : Nat} (hkn : k ≤ n) (hn : 0 < n) :
    (1.0 - ratio k n = 0.0 ∨ 0.0 < 1.0 - ratio k n)
      ∧ 1.0 - ratio k n ≤ 1.0 := by
  obtain ⟨share, hratio, hlow, hhigh⟩ := exists_share hkn hn
  constructor
  · rcases hhigh.eq_or_lt with rfl | hless
    · left
      rw [eq_one_of_hasValue hratio]
      decide
    · right
      exact Number.sub_pos_of_lt Number.hasValue_one hratio hless
  · refine (Number.isRounding_sub Number.hasValue_one hratio).le_of_le
      Number.hasValue_one ?_
    linarith

/-- A share below one is not rounded up to it, unless the texts
are very long. -/
theorem one_sub_ratio_pos {k : Nat} (hkn : k < n) (hlt : n < 2 ^ 52) :
    0.0 < 1.0 - ratio k n := by
  have hcount : (k : ℚ) ≤ n - 1 := by
    rw [← Nat.cast_pred (by omega)]
    exact Nat.cast_le.2 (Nat.le_pred_of_lt hkn)
  have hshare : (k : ℚ) / n ≤ 1 - 1 / 2 ^ 52 :=
    (div_le_div_of_nonneg_right hcount (Nat.cast_nonneg n)).trans
      (share_of_pred_le (by omega) hlt)
  obtain ⟨share, hratio, -, hhigh⟩ :=
    (isRounding_ratio k (by omega)).exists_between
    Number.hasValue_zero hasValue_nearOne (by positivity) hshare
  refine Number.sub_pos_of_lt Number.hasValue_one hratio (hhigh.trans_lt ?_)
  norm_num

theorem one_sub_ratio_eq_zero_iff {k : Nat} (hkn : k ≤ n) (hn : 0 < n)
    (hlt : n < 2 ^ 52) :
    1.0 - ratio k n = 0.0 ↔ k = n := by
  constructor
  · intro hzero
    by_contra hless
    have hpositive := one_sub_ratio_pos (lt_of_le_of_ne hkn hless) hlt
    rw [hzero] at hpositive
    exact absurd hpositive (by decide)
  · intro hall
    rw [hall, ratio_self hn]
    decide

theorem Short.length_lt (h : Short text) :
    (Text.normalize text).length < 2 ^ 52 := by
  have hfolded := Text.length_normalize_le text
  unfold Short at h
  omega

theorem score_levenshtein_eq (hquery : Text.normalize query ≠ [])
    (htarget : Text.normalize target ≠ [])
    (hne : Text.normalize query ≠ Text.normalize target) :
    score .levenshtein query target
      = 1.0
        - ratio (editDistance (Text.normalize query) (Text.normalize target))
        (max (Text.normalize query).length
          (Text.normalize target).length) := by
  have hlength : 0 < (Text.normalize query).length :=
    List.length_pos_of_ne_nil hquery
  obtain ⟨hlow, hhigh⟩ := one_sub_ratio_bounds
    (editDistance_le (Text.normalize query) (Text.normalize target)) (by omega)
  rw [score_of_normalize_ne hquery htarget hne]
  exact Number.clamp_eq_self hlow hhigh

/-- The score by distance of texts that differ comes from the least number of
edits between them, is the same in both directions, and is nothing exactly when
that number is the longer length. -/
theorem score_levenshtein_spec (hquery : Text.normalize query ≠ [])
    (htarget : Text.normalize target ≠ [])
    (hne : Text.normalize query ≠ Text.normalize target) :
    ∃ d, IsLeast {n | Edits n (Text.normalize query) (Text.normalize target)} d
      ∧ score .levenshtein query target
        = 1.0 - ratio d
          (max (Text.normalize query).length (Text.normalize target).length)
      ∧ score .levenshtein target query = score .levenshtein query target
      ∧ (Short query → Short target →
        (score .levenshtein query target = 0.0
          ↔ d = max (Text.normalize query).length
            (Text.normalize target).length)) := by
  have hscore := score_levenshtein_eq hquery htarget hne
  refine ⟨_, isLeast_editDistance _ _, hscore, ?_, ?_⟩
  · rw [hscore, score_levenshtein_eq htarget hquery (Ne.symm hne),
      editDistance_comm, max_comm]
  · intro hshort hshort'
    have hqlt := hshort.length_lt
    have htlt := hshort'.length_lt
    have hlength : 0 < (Text.normalize query).length :=
      List.length_pos_of_ne_nil hquery
    rw [hscore]
    exact one_sub_ratio_eq_zero_iff (editDistance_le _ _) (by omega) (by omega)

/-- Two characters are replaced and one is inserted. -/
theorem score_levenshtein_kitten :
    IsLeast {n | Edits n "kitten".toList "sitting".toList} 3
      ∧ score .levenshtein "Kitten" "sitting" = 1.0 - ratio 3 7
      ∧ score .levenshtein "sitting" "Kitten"
        = score .levenshtein "Kitten" "sitting"
      ∧ score .levenshtein "Kitten" "sitting" ≠ 0.0 := by
  have hquery : Text.normalize "Kitten" = "kitten".toList := by decide +kernel
  have htarget : Text.normalize "sitting" = "sitting".toList := by
    decide +kernel
  obtain ⟨d, hleast, hscore, hcomm, hzero⟩ :=
    @score_levenshtein_spec "Kitten" "sitting"
    (by decide +kernel) (by decide +kernel) (by decide +kernel)
  rw [hquery, htarget] at hleast hscore hzero
  have hd : d = 3 := hleast.unique (isLeast_editDistance _ _)
  subst hd
  refine ⟨hleast, hscore, hcomm, fun hnone => ?_⟩
  exact absurd ((hzero (Or.inl (by decide)) (Or.inl (by decide))).1 hnone)
    (by decide)

end GitPersona.Lookup
