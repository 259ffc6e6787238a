/-
The edit distance as a recursion on both texts. It is computed a row at
a time, and a row ends in the row of any shorter suffix
(`distanceRow_cons`); the head of a row therefore follows from the three
distances that leave out a first character (`editDistance_cons_cons`).
From there, only equal texts are at distance zero
(`editDistance_eq_zero_iff`), and no two are farther apart than the
longer of them is long (`editDistance_le`). A character more at the
front of either text moves the distance by one at most
(`editDistance_cons_near`), and what a text lacks at its end is all that
it is away from the longer one (`editDistance_append`).
-/
import GitPersona.Lookup.EditDistance
import Mathlib.Data.List.Basic

namespace GitPersona.Lookup

variable {c d : Char} {q t : List Char}

-- ================================================================ rows

/-- The distances of a text to every suffix of another one, longest first. -/
def distanceRow (q t : List Char) : List Nat :=
  q.foldr (fun c row => rowBefore c t row) (lastRow t)

theorem distanceRow_cons_left (c : Char) (q t : List Char) :
    distanceRow (c :: q) t = rowBefore c t (distanceRow q t) :=
  rfl

/-- The last row has one more number than the text has characters. -/
theorem length_lastRow (t : List Char) :
    (lastRow t).length = t.length + 1 := by
  induction t with
  | nil => rfl
  | cons d t ih => simp [lastRow, ih]

/-- A row is as long as the one after it. -/
theorem length_rowBefore {row : List Nat} (h : row.length = t.length + 1) :
    (rowBefore c t row).length = t.length + 1 := by
  induction t generalizing row with
  | nil => simpa [rowBefore] using h
  | cons d t ih =>
      match row with
      | here :: below :: row =>
          have hbelow : (below :: row).length = t.length + 1 := by
            simpa using h
          have hrest := ih hbelow
          unfold rowBefore
          split
          · next hnil =>
            rw [hnil] at hrest
            cases hrest
          · next right rest hcons =>
            rw [hcons] at hrest
            simpa using hrest

/-- Every row has one more number than the text has characters. -/
theorem length_distanceRow (q t : List Char) :
    (distanceRow q t).length = t.length + 1 := by
  induction q with
  | nil => exact length_lastRow t
  | cons c q ih => exact length_rowBefore ih

/-- A row starts with the distance of the two texts. -/
theorem exists_distanceRow_eq (q t : List Char) :
    ∃ rest, distanceRow q t = editDistance q t :: rest := by
  have hlength := length_distanceRow q t
  unfold editDistance
  change ∃ rest, distanceRow q t = (distanceRow q t).headD 0 :: rest
  cases hrow : distanceRow q t with
  | nil =>
      rw [hrow] at hlength
      cases hlength
  | cons n rest => exact ⟨rest, rfl⟩

/-- The distance that follows from those without a first character. -/
def distanceFrom (c d : Char) (q t : List Char) : Nat :=
  if c = d then editDistance q t
  else 1 + min (editDistance q (d :: t))
    (min (editDistance (c :: q) t) (editDistance q t))

theorem rowBefore_cons
    (hrow : distanceRow q (d :: t) = editDistance q (d :: t)
        :: distanceRow q t) :
    distanceRow (c :: q) (d :: t) = distanceFrom c d q t
      :: distanceRow (c :: q) t := by
  obtain ⟨rest, hbelow⟩ := exists_distanceRow_eq q t
  obtain ⟨rest', hright⟩ := exists_distanceRow_eq (c :: q) t
  have hnext : rowBefore c t (editDistance q t :: rest)
      = editDistance (c :: q) t :: rest' := by
    rw [← hbelow, ← distanceRow_cons_left, hright]
  rw [distanceRow_cons_left, hrow, hbelow, rowBefore, hnext, hright]
  rfl

/-- A row is the row of the next suffix with one distance before it. -/
theorem distanceRow_cons (q : List Char) (d : Char) (t : List Char) :
    distanceRow q (d :: t) = editDistance q (d :: t) :: distanceRow q t := by
  induction q with
  | nil => rfl
  | cons c q ih =>
      have hrow := rowBefore_cons (c := c) ih
      obtain ⟨rest, hhead⟩ := exists_distanceRow_eq (c :: q) (d :: t)
      rw [hrow] at hhead ⊢
      rw [(List.cons.inj hhead).1]

-- ======================================================= the recursion

/-- From nothing one inserts every character. -/
@[simp]
theorem editDistance_nil_left (t : List Char) :
    editDistance [] t = t.length := by
  cases t <;> rfl

/-- To nothing one deletes every character. -/
@[simp]
theorem editDistance_nil_right (q : List Char) :
    editDistance q [] = q.length := by
  have hrow : distanceRow q [] = [q.length] := by
    induction q with
    | nil => rfl
    | cons c q ih =>
        rw [distanceRow_cons_left, ih]
        rfl
  show (distanceRow q []).headD 0 = q.length
  rw [hrow]
  rfl

/-- Equal first characters cost nothing; otherwise one edit is made, the
best of three. -/
theorem editDistance_cons_cons (c d : Char) (q t : List Char) :
    editDistance (c :: q) (d :: t)
      = if c = d then editDistance q t
        else 1 + min (editDistance q (d :: t))
          (min (editDistance (c :: q) t) (editDistance q t)) := by
  have hrow := distanceRow_cons (c :: q) d t
  rw [rowBefore_cons (distanceRow_cons q d t)] at hrow
  exact (List.cons.inj hrow).1.symm

-- ============================================================== bounds

/-- Only equal texts are at distance zero. -/
theorem editDistance_eq_zero_iff : editDistance q t = 0 ↔ q = t := by
  induction q generalizing t with
  | nil => simp [List.length_eq_zero_iff, eq_comm]
  | cons c q ih =>
      cases t with
      | nil => simp
      | cons d t =>
          rw [editDistance_cons_cons]
          by_cases hcd : c = d
          · rw [if_pos hcd, ih, hcd, List.cons.injEq, and_iff_right rfl]
          · rw [if_neg hcd]
            simp [hcd]

/-- No two texts are farther apart than the longer of them is long. -/
theorem editDistance_le (q t : List Char) :
    editDistance q t ≤ max q.length t.length := by
  induction q generalizing t with
  | nil => simp
  | cons c q ih =>
      cases t with
      | nil => simp
      | cons d t =>
          have hrest := ih t
          rw [editDistance_cons_cons, List.length_cons, List.length_cons]
          split <;> omega

/-- A text is as far from its continuations as they go on. -/
theorem editDistance_append (q rest : List Char) :
    editDistance q (q ++ rest) = rest.length := by
  induction q with
  | nil => simp
  | cons c q ih => rw [List.cons_append, editDistance_cons_cons, if_pos rfl,
      ih]

-- ========================================================= neighbours

/-- It takes as many edits back. -/
theorem editDistance_comm (q t : List Char) :
    editDistance q t = editDistance t q := by
  induction q generalizing t with
  | nil => simp
  | cons c q ih =>
      induction t with
      | nil => simp
      | cons d t ihRight =>
          rw [editDistance_cons_cons, editDistance_cons_cons, ih (d :: t),
            ih t, ihRight]
          by_cases hcd : c = d
          · rw [if_pos hcd, if_pos hcd.symm]
          · rw [if_neg hcd, if_neg (Ne.symm hcd), Nat.min_left_comm]

/-- One character more at the front moves the distance by one at most. The two
bounds need each other with the texts exchanged, so both are carried along the
lengths together. -/
theorem editDistance_cons_near (c : Char) : ∀ q t : List Char,
    editDistance (c :: q) t ≤ editDistance q t + 1
      ∧ editDistance q t ≤ editDistance (c :: q) t + 1
  | q, [] => by
      simp
      omega
  | q, d :: t => by
      have hrest := editDistance_cons_near c q t
      have hright := editDistance_cons_near d t q
      rw [editDistance_comm (d :: t) q, editDistance_comm t q] at hright
      rw [editDistance_cons_cons]
      split <;> omega
termination_by q t => q.length + t.length

/-- Two characters more, one at the front of each text, bring the
texts no nearer. -/
theorem editDistance_le_cons_cons (c d : Char) (q t : List Char) :
    editDistance q t ≤ editDistance (c :: q) (d :: t) := by
  have hleft := editDistance_cons_near c q t
  have hright := editDistance_cons_near d t q
  rw [editDistance_comm (d :: t) q, editDistance_comm t q] at hright
  rw [editDistance_cons_cons]
  split <;> omega

/-- Replacing the first character is one way. -/
theorem editDistance_cons_cons_le (c d : Char) (q t : List Char) :
    editDistance (c :: q) (d :: t) ≤ editDistance q t + 1 := by
  rw [editDistance_cons_cons]
  split <;> omega

end GitPersona.Lookup
