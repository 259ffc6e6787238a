/-
Steps that may be refused, one after another. Two steps refuse where the
first does, or the second after it; a list that is gone through item by
item is refused by the first item that refuses, as long as the walk gets
there. These laws turn what a walk comes to into what holds of the items
(`filterMapM_eq_ok_iff`, `filterMapM_eq_error_iff`), also for a search,
which ends at the first hit and never looks at what stands after it
(`findM?_eq_error_iff`).
-/

namespace GitPersona

variable {ε α β : Type} {e : ε}

-- =============================================================== two steps

section

variable {x : Except ε α}

/-- What comes out of two steps comes out of the second one,
after the first. -/
theorem exists_of_bind_eq_ok {f : α → Except ε β} {b : β}
    (h : x >>= f = .ok b) : ∃ a, x = .ok a ∧ f a = .ok b := by
  cases x with
  | error e => cases h
  | ok a => exact ⟨a, rfl, h⟩

theorem exists_of_map_eq_ok {f : α → β} {b : β} (h : x.map f = .ok b) :
    ∃ a, x = .ok a ∧ f a = b := by
  cases x with
  | error e => cases h
  | ok a => exact ⟨a, rfl, Except.ok.inj h⟩

theorem map_eq_ok_iff {f : α → β} {b : β} :
    x.map f = .ok b ↔ ∃ a, x = .ok a ∧ f a = b := by
  refine ⟨exists_of_map_eq_ok, ?_⟩
  rintro ⟨a, rfl, rfl⟩
  rfl

/-- Two steps refuse where the first does, or the second after it. -/
theorem bind_eq_error_iff {g : α → Except ε β} :
    x >>= g = .error e ↔ x = .error e ∨ ∃ a, x = .ok a ∧ g a = .error e := by
  cases x with
  | error e' =>
      constructor
      · intro h
        cases h
        exact Or.inl rfl
      · rintro (h | ⟨a, ha, -⟩)
        · cases h
          rfl
        · cases ha
  | ok a =>
      constructor
      · intro h
        exact Or.inr ⟨a, rfl, h⟩
      · rintro (h | ⟨b, hb, h⟩)
        · cases h
        · cases hb
          exact h

/-- Changing what comes out does not change what is refused. -/
theorem map_eq_error_iff {g : α → β} :
    x.map g = .error e ↔ x = .error e := by
  cases x with
  | error e' => simp [Except.map]
  | ok a => simp [Except.map]

theorem bind_ok_eq_error_iff {g : α → β} :
    (x >>= fun a => .ok (g a)) = .error e ↔ x = .error e := by
  rw [bind_eq_error_iff]
  simp

/-- Something comes out of a step that is not refused. -/
theorem exists_ok_iff_ne_error : (∃ a, x = .ok a) ↔ ∀ e, x ≠ .error e := by
  cases x with
  | error e => simp
  | ok a => simp

end

-- ========================================================= the first item

/-- The first item of a kind is the head, or comes after a head that is
passed over. -/
theorem exists_first_cons_iff {passed hit : α → Prop} {a : α}
    {as : List α} :
    (∃ before b after, a :: as = before ++ b :: after
        ∧ (∀ x ∈ before, passed x) ∧ hit b)
      ↔ hit a ∨ passed a ∧ ∃ before b after, as = before ++ b :: after
        ∧ (∀ x ∈ before, passed x) ∧ hit b := by
  constructor
  · rintro ⟨before, b, after, hsplit, hbefore, hb⟩
    cases before with
    | nil =>
        cases hsplit
        exact Or.inl hb
    | cons x before =>
        cases hsplit
        obtain ⟨hhead, hrest⟩ := List.forall_mem_cons.1 hbefore
        exact Or.inr ⟨hhead, before, b, after, rfl, hrest, hb⟩
  · rintro (ha | ⟨ha, before, b, after, rfl, hbefore, hb⟩)
    · exact ⟨[], a, as, rfl, by simp, ha⟩
    · exact ⟨a :: before, b, after, rfl,
        List.forall_mem_cons.2 ⟨ha, hbefore⟩, hb⟩

-- ================================================================== a walk

section

variable {g : α → Except ε (Option β)} {a : α} {as : List α} {out : List β}

/-- A list that is gone through item by item gives what its first item
gives, if anything, and then what the others give. -/
theorem exists_of_filterMapM_cons (h : (a :: as).filterMapM g = .ok out) :
    ∃ o rest, g a = .ok o ∧ as.filterMapM g = .ok rest
      ∧ out = o.toList ++ rest := by
  rw [List.filterMapM_cons] at h
  obtain ⟨o, ho, hsteps⟩ := exists_of_bind_eq_ok h
  cases o with
  | none => exact ⟨none, out, ho, hsteps, rfl⟩
  | some b =>
      obtain ⟨rest, hrest, hout⟩ := exists_of_bind_eq_ok hsteps
      exact ⟨some b, rest, ho, hrest, (Except.ok.inj hout).symm⟩

/-- A list that is gone through item by item is refused by the first item
that refuses. -/
theorem filterMapM_eq_error_iff : as.filterMapM g = .error e ↔
    ∃ before a after, as = before ++ a :: after
      ∧ (∀ b ∈ before, ∃ o, g b = .ok o) ∧ g a = .error e := by
  induction as with
  | nil =>
      constructor
      · intro h
        cases h
      · rintro ⟨before, a, after, hsplit, -⟩
        simp at hsplit
  | cons first as ih =>
      rw [exists_first_cons_iff, ← ih, List.filterMapM_cons,
        bind_eq_error_iff]
      -- what an item gives is put in front, which refuses nothing
      have hrest : ∀ o, (match o with
          | none => as.filterMapM g
          | some b => return b :: (← as.filterMapM g)) = .error e
          ↔ as.filterMapM g = .error e := by
        intro o
        cases o with
        | none => exact Iff.rfl
        | some b => exact bind_ok_eq_error_iff
      rw [← exists_and_right]
      exact or_congr_right
        (exists_congr fun o => and_congr_right fun _ => hrest o)

/-- A walk that no item refuses gives what the items give. -/
theorem filterMapM_eq_ok_iff : as.filterMapM g = .ok out ↔
    (∀ a ∈ as, ∃ o, g a = .ok o)
      ∧ out = as.filterMap fun a => (g a).toOption.join := by
  induction as generalizing out with
  | nil =>
      show Except.ok [] = Except.ok out ↔ _
      simp [eq_comm]
  | cons first as ih =>
      constructor
      · intro h
        obtain ⟨o, rest, ho, hrest, rfl⟩ := exists_of_filterMapM_cons h
        obtain ⟨hall, rfl⟩ := ih.1 hrest
        refine ⟨List.forall_mem_cons.2 ⟨⟨o, ho⟩, hall⟩, ?_⟩
        rw [List.filterMap_cons, ho]
        cases o <;> rfl
      · rintro ⟨hall, rfl⟩
        obtain ⟨⟨o, ho⟩, hrest⟩ := List.forall_mem_cons.1 hall
        rw [List.filterMapM_cons, List.filterMap_cons, ho,
          ih.2 ⟨hrest, rfl⟩]
        cases o <;> rfl

/-- Where items refuse for one reason only, the walk is refused for it if
any item refuses. -/
theorem filterMapM_eq_error_iff_exists {reason : ε}
    (hreason : ∀ a ∈ as, ∀ e, g a = .error e → e = reason) :
    as.filterMapM g = .error e
      ↔ e = reason ∧ ∃ a ∈ as, g a = .error reason := by
  constructor
  · intro h
    obtain ⟨before, a, after, rfl, -, ha⟩ := filterMapM_eq_error_iff.1 h
    have hmem : a ∈ before ++ a :: after := by simp
    obtain rfl := hreason a hmem e ha
    exact ⟨rfl, a, hmem, ha⟩
  · rintro ⟨rfl, a, hmem, ha⟩
    cases hwalk : as.filterMapM g with
    | ok out =>
        obtain ⟨o, ho⟩ := (filterMapM_eq_ok_iff.1 hwalk).1 a hmem
        rw [ha] at ho
        cases ho
    | error e' =>
        obtain ⟨before, b, after, rfl, -, hb⟩ :=
          filterMapM_eq_error_iff.1 hwalk
        rw [hreason b (by simp) e' hb]

end

-- ================================================================ a search

section

variable {g : α → Except ε Bool} {a : α} {as : List α}

/-- A search goes on after an item that is no hit. -/
theorem findM?_cons_of_ok_false (h : g a = .ok false) :
    (a :: as).findM? g = as.findM? g := by
  simp [List.findM?, h, bind, Except.bind]

/-- A search ends at a hit. -/
theorem findM?_cons_of_ok_true (h : g a = .ok true) :
    (a :: as).findM? g = .ok (some a) := by
  simp [List.findM?, h, bind, Except.bind, pure, Except.pure]

/-- A search ends at an item that is refused. -/
theorem findM?_cons_of_error (h : g a = .error e) :
    (a :: as).findM? g = .error e := by
  simp [List.findM?, h, bind, Except.bind]

/-- A search is refused by an item that no hit stands before, nor another
item that refuses. -/
theorem findM?_eq_error_iff : as.findM? g = .error e ↔
    ∃ before a after, as = before ++ a :: after
      ∧ (∀ b ∈ before, g b = .ok false) ∧ g a = .error e := by
  induction as with
  | nil =>
      constructor
      · intro h
        cases h
      · rintro ⟨before, a, after, hsplit, -⟩
        simp at hsplit
  | cons first as ih =>
      rw [exists_first_cons_iff, ← ih]
      cases hfirst : g first with
      | error e' =>
          rw [findM?_cons_of_error hfirst]
          simp
      | ok hit =>
          cases hit with
          | true =>
              rw [findM?_cons_of_ok_true hfirst]
              simp
          | false =>
              rw [findM?_cons_of_ok_false hfirst]
              simp

/-- A search that is not refused finds the first hit. -/
theorem find?_of_findM?_eq_ok {o : Option α} (h : as.findM? g = .ok o) :
    as.find? (fun a => (g a).toOption.getD false) = o := by
  induction as with
  | nil =>
      cases h
      rfl
  | cons first as ih =>
      rw [List.find?_cons]
      cases hfirst : g first with
      | error e =>
          rw [findM?_cons_of_error hfirst] at h
          cases h
      | ok hit =>
          cases hit with
          | true =>
              rw [findM?_cons_of_ok_true hfirst] at h
              cases h
              rfl
          | false =>
              rw [findM?_cons_of_ok_false hfirst] at h
              exact ih h

end

end GitPersona
