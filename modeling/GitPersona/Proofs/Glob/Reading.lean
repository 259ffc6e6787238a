/-
What a pattern is read as, said without reading it: `Reads` has one
rule for each way an element can stand at the start of a pattern, and
`Closes` says which `]` closes a bracket expression. The reader finds
the one list of elements that the rules allow (`reads_iff`), so a
statement about patterns may be made by rules and proved by running
the reader.
-/
import GitPersona.Glob.Match
import Mathlib.Data.List.TakeWhile

namespace GitPersona.Glob

-- =========================================================== the two rules

/-- After a `[`, the body of a bracket expression ends at a `]` and `after`
follows. A `]` directly after the `[`, or after a `!` that follows it, does not
close the expression. -/
structure Closes (cs body after : List Char) : Prop where
  split : cs = body ++ ']' :: after
  notEmpty : body ≠ []
  notBang : body ≠ ['!']
  earlier : ∀ before rest, body = before ++ ']' :: rest →
    before = [] ∨ before = ['!']

/-- A pattern consists of these elements, left to right. -/
inductive Reads : List Char → List Element → Prop
  | nil : Reads [] []
  | star {r : List Char} {es : List Element} : Reads r es →
      Reads ('*' :: r) (.star :: es)
  | anyOne {r : List Char} {es : List Element} : Reads r es →
      Reads ('?' :: r) (.anyOne :: es)
  | among {r body after : List Char} {es : List Element} :
      Closes r body after → Reads after es →
        Reads ('[' :: r) (.among (.ofBody body) :: es)
  | unclosed {r : List Char} {es : List Element} :
      (∀ body after, ¬ Closes r body after) → Reads r es →
        Reads ('[' :: r) (.exactly '[' :: es)
  | exactly {c : Char} {r : List Char} {es : List Element} :
      isWildcard c = false → Reads r es → Reads (c :: r) (.exactly c :: es)

-- ==================================================== the closing bracket

/-- No two places close the same bracket expression: the earlier one is in the
body that ends at the later one, where a `]` may stand only in front. -/
theorem Closes.unique {cs body after body' after' : List Char}
    (h : Closes cs body after)
    (h' : Closes cs body' after') : body = body' ∧ after = after' := by
  have hsplit := h.split.symm.trans h'.split
  rcases List.append_eq_append_iff.1 hsplit with
    ⟨t, hbody', hrest⟩ | ⟨t, hbody, hrest⟩
  · cases t with
    | nil =>
        rw [List.append_nil] at hbody'
        exact ⟨hbody'.symm, (List.cons.inj hrest).2⟩
    | cons c t =>
        obtain ⟨hc, -⟩ := List.cons.inj hrest
        rcases h'.earlier body t (by rw [hbody', hc]) with hnil | hbang
        · exact absurd hnil h.notEmpty
        · exact absurd hbang h.notBang
  · cases t with
    | nil =>
        rw [List.append_nil] at hbody
        exact ⟨hbody, (List.cons.inj hrest).2.symm⟩
    | cons c t =>
        obtain ⟨hc, -⟩ := List.cons.inj hrest
        rcases h.earlier body' t (by rw [hbody, hc]) with hnil | hbang
        · exact absurd hnil h'.notEmpty
        · exact absurd hbang h'.notBang

/-- What the lead of a body can be, and that it takes a leading `!` and the
`]` after it. -/
theorem bracketLead_cases (cs : List Char) :
    ((bracketLead cs).1 = [] ∧ (bracketLead cs).2.head? ≠ some ']'
        ∧ (bracketLead cs).2.head? ≠ some '!')
      ∨ ((bracketLead cs).1 = ['!'] ∧ (bracketLead cs).2.head? ≠ some ']')
      ∨ (bracketLead cs).1 = [']'] ∨ (bracketLead cs).1 = ['!', ']'] := by
  unfold bracketLead
  split
  · exact Or.inr (Or.inr (Or.inr rfl))
  · next r hr =>
    refine Or.inr (Or.inl ⟨rfl, fun hhead => ?_⟩)
    obtain ⟨t, rfl⟩ := List.head?_eq_some_iff.1 hhead
    exact hr t rfl
  · exact Or.inr (Or.inr (Or.inl rfl))
  · next hbang hclose =>
    refine Or.inl ⟨rfl, fun hhead => ?_, fun hhead => ?_⟩
    · obtain ⟨t, rfl⟩ := List.head?_eq_some_iff.1 hhead
      exact hclose t rfl
    · obtain ⟨t, rfl⟩ := List.head?_eq_some_iff.1 hhead
      exact hbang t rfl

/-- A `]` in the lead stands in front, or after a `!` in front. -/
theorem eq_of_mem_bracketLead {cs before t : List Char}
    (h : (bracketLead cs).1 = before ++ ']' :: t) :
    before = [] ∨ before = ['!'] := by
  match before with
  | [] => exact Or.inl rfl
  | [b] =>
      unfold bracketLead at h
      split at h
      · simp only [List.cons_append, List.cons.injEq] at h
        exact Or.inr (by rw [h.1])
      all_goals simp at h
  | b :: c :: before =>
      unfold bracketLead at h
      split at h
      all_goals simp at h

/-- A text split before the first place of a character. -/
theorem split_at_first {cs after : List Char} {c d : Char}
    (h : cs.dropWhile (· != c) = d :: after) :
    cs = cs.takeWhile (· != c) ++ c :: after ∧ c ∉ cs.takeWhile (· != c) := by
  have hd : d = c := by
    have hhead := List.head?_dropWhile_not (· != c) cs
    rw [h] at hhead
    simpa using hhead
  refine ⟨?_, fun hmem => ?_⟩
  · rw [← hd, ← h, hd, List.takeWhile_append_dropWhile]
  · simpa using List.mem_takeWhile_imp hmem

/-- A bracket expression that the reader finds is closed where
the rule says. -/
theorem closes_of_bracket? {cs body after : List Char}
    (h : bracket? cs = some (body, after)) :
    Closes cs body after := by
  have hcs := bracketLead_append cs
  have hcases := bracketLead_cases cs
  have hearlier : ∀ before t, (bracketLead cs).1 = before ++ ']' :: t →
      before = [] ∨ before = ['!'] := fun _ _ => eq_of_mem_bracketLead
  unfold bracket? at h
  generalize (bracketLead cs).1 = lead at h hcs hcases hearlier
  generalize (bracketLead cs).2 = rest at h hcs hcases
  split at h
  · cases h
  · next c r hdrop =>
    obtain ⟨rfl, rfl⟩ : lead ++ rest.takeWhile (· != ']') = body
      ∧ r = after := by
      simpa using h
    obtain ⟨hrest, hrun⟩ := split_at_first hdrop
    generalize rest.takeWhile (· != ']') = run at hrest hrun
    subst hrest
    refine ⟨?_, ?_, ?_, ?_⟩
    · rw [← hcs, List.append_assoc]
    · intro hnil
      obtain ⟨hl, hr⟩ := List.append_eq_nil_iff.1 hnil
      simp [hl, hr] at hcases
    · intro hbang
      rcases List.append_eq_singleton_iff.1 hbang with ⟨hl, hr⟩ | ⟨hl, hr⟩
      · simp [hl, hr] at hcases
      · simp [hl, hr] at hcases
    · -- an earlier bracket would stand in the lead, or in the run after
      -- it, which has none
      intro before t heq
      rcases List.append_eq_append_iff.1 heq with ⟨u, -, hu⟩ | ⟨u, hu, hdrop⟩
      · exact absurd (hu ▸ List.mem_append_right _ List.mem_cons_self) hrun
      · cases u with
        | nil =>
            rw [List.nil_append] at hdrop
            exact absurd (hdrop ▸ List.mem_cons_self) hrun
        | cons d u =>
            obtain ⟨hd, -⟩ := List.cons.inj hdrop
            exact hearlier before u (by rw [hu, hd])

/-- Where the rule closes an expression, the reader finds one. -/
theorem Closes.isSome_bracket? {cs body after : List Char}
    (h : Closes cs body after) :
    (bracket? cs).isSome = true := by
  by_contra hnone
  have hdrop : (bracketLead cs).2.dropWhile (· != ']') = [] := by
    unfold bracket? at hnone
    split at hnone
    · assumption
    · exact absurd rfl hnone
  have hclose : ']' ∉ (bracketLead cs).2 := fun hmem => by
    simpa using List.dropWhile_eq_nil_iff.1 hdrop _ hmem
  have hcs : (bracketLead cs).1 ++ (bracketLead cs).2 = body ++ ']' :: after :=
    (bracketLead_append cs).trans h.split
  rcases List.append_eq_append_iff.1 hcs with ⟨u, -, hu⟩ | ⟨u, hu, hdrop'⟩
  · exact hclose (hu ▸ List.mem_append_right _ List.mem_cons_self)
  · cases u with
    | nil =>
        rw [List.nil_append] at hdrop'
        exact hclose (hdrop' ▸ List.mem_cons_self)
    | cons d u =>
        obtain ⟨hd, -⟩ := List.cons.inj hdrop'
        rcases eq_of_mem_bracketLead (t := u) (by rw [hu, hd]) with
          hnil | hbang
        · exact h.notEmpty hnil
        · exact h.notBang hbang

/-- The reader finds the body of a bracket expression exactly where the
rule closes it. -/
theorem bracket?_eq_some_iff {cs body after : List Char} :
    bracket? cs = some (body, after) ↔ Closes cs body after := by
  refine ⟨closes_of_bracket?, fun h => ?_⟩
  obtain ⟨⟨body', after'⟩, hfound⟩ :=
    Option.isSome_iff_exists.1 h.isSome_bracket?
  obtain ⟨rfl, rfl⟩ := (closes_of_bracket? hfound).unique h
  exact hfound

theorem bracket?_eq_none_iff {cs : List Char} :
    bracket? cs = none ↔ ∀ body after, ¬ Closes cs body after := by
  constructor
  · intro hnone body after h
    rw [bracket?_eq_some_iff.2 h] at hnone
    cases hnone
  · intro h
    cases hfound : bracket? cs with
    | none => rfl
    | some found => exact absurd (closes_of_bracket? hfound) (h _ _)

-- ================================================================ patterns

/-- The reader follows the rules. -/
theorem reads_elements (pattern : List Char) :
    Reads pattern (elements pattern) := by
  induction pattern using elements.induct with
  | case1 =>
      rw [elements]
      exact Reads.nil
  | case2 r ih =>
      rw [elements]
      exact Reads.star ih
  | case3 r ih =>
      rw [elements]
      exact Reads.anyOne ih
  | case4 r body after hfound hshort ih =>
      rw [elements]
      split
      · next b a hb =>
        rw [hfound] at hb
        cases hb
        exact Reads.among (closes_of_bracket? hfound) ih
      · next hb =>
        rw [hfound] at hb
        cases hb
  | case5 r hnone ih =>
      rw [elements]
      split
      · next b a hb =>
        rw [hnone] at hb
        cases hb
      · exact Reads.unclosed (bracket?_eq_none_iff.1 hnone) ih
  | case6 c r hstar hany hopen ih =>
      rw [elements]
      · refine Reads.exactly ?_ ih
        simp only [isWildcard, Bool.or_eq_false_iff, beq_eq_false_iff_ne]
        exact ⟨⟨hstar, hany⟩, hopen⟩
      all_goals assumption

/-- The rules allow one list of elements for a pattern, the one that the
reader finds. -/
theorem reads_iff {pattern : List Char} {es : List Element} :
    Reads pattern es ↔ es = elements pattern := by
  refine ⟨fun h => ?_, fun h => h ▸ reads_elements pattern⟩
  induction h with
  | nil => rw [elements]
  | star _ ih => rw [elements, ih]
  | anyOne _ ih => rw [elements, ih]
  | among hcloses _ ih =>
      rw [elements]
      split
      · next b a hb =>
        rw [bracket?_eq_some_iff.2 hcloses] at hb
        cases hb
        rw [ih]
      · next hb =>
        rw [bracket?_eq_some_iff.2 hcloses] at hb
        cases hb
  | unclosed hopen _ ih =>
      rw [elements]
      split
      · next b a hb => exact absurd (closes_of_bracket? hb) (hopen _ _)
      · rw [ih]
  | exactly hplain _ ih =>
      simp only [isWildcard, Bool.or_eq_false_iff, beq_eq_false_iff_ne]
        at hplain
      obtain ⟨⟨hstar, hany⟩, hopen⟩ := hplain
      rw [elements, ih]
      all_goals assumption

end GitPersona.Glob
