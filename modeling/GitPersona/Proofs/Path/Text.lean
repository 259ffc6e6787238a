/-
The text of a path reads back as the path: parts hold no slash and are
none of what reading drops, and an anchor is told by the slashes it is
written with. Paths with one text are therefore equal, which is all that
a signature over the text needs.
-/
import GitPersona.Path
import Mathlib.Data.List.Basic

namespace GitPersona.Path

theorem eq_of_parts_eq {p q : Path} (hanchor : p.anchor = q.anchor)
    (hparts : p.parts = q.parts) :
    p = q := by
  cases p
  cases q
  rw [Path.mk.injEq]
  exact ⟨hanchor, hparts⟩

-- ================================================================ parts

theorem not_mem_of_isPart {cs : List Char} (h : isPart cs = true) :
    '/' ∉ cs := by
  simp only [isPart, Bool.and_eq_true, Bool.not_eq_true', List.contains_eq_mem,
    decide_eq_false_iff_not] at h
  exact h.2

theorem head?_of_isPart {cs : List Char} (h : isPart cs = true) :
    ∃ c r, cs = c :: r ∧ c ≠ '/' := by
  cases cs with
  | nil => cases h
  | cons c r => exact ⟨c, r, rfl,
      fun hc => not_mem_of_isPart h (hc ▸ List.mem_cons_self)⟩

/-- Parts joined by slashes are read as those parts. -/
theorem partsOf_intercalate {parts : List String}
    (hproper : ∀ part ∈ parts, isPart part.toList = true) :
    partsOf (['/'].intercalate (parts.map String.toList)) = parts := by
  cases parts with
  | nil => rfl
  | cons first rest =>
      have hslash : ∀ cs ∈ (first :: rest).map String.toList, '/' ∉ cs := by
        intro cs hcs
        obtain ⟨part, hpart, rfl⟩ := List.mem_map.1 hcs
        exact not_mem_of_isPart (hproper part hpart)
      have hfilter : ((first :: rest).map String.toList).filter isPart
          = (first :: rest).map String.toList := by
        refine List.filter_eq_self.2 fun cs hcs => ?_
        obtain ⟨part, hpart, rfl⟩ := List.mem_map.1 hcs
        exact hproper part hpart
      rw [partsOf, List.splitOn_intercalate _ hslash (by simp), hfilter,
        List.map_map]
      calc (first :: rest).map (String.ofList ∘ String.toList)
          = (first :: rest).map id :=
        List.map_congr_left fun _ _ => String.ofList_toList
        _ = first :: rest := List.map_id _

/-- A slash parts what stands on either side of it. -/
theorem partsOf_slash_append (cs ds : List Char) :
    partsOf (cs ++ '/' :: ds) = partsOf cs ++ partsOf ds := by
  have hsplit : (cs ++ '/' :: ds).splitOn '/' = cs.splitOn '/'
      ++ ds.splitOn '/' :=
    List.splitOn_append_cons_self cs ds
  rw [partsOf, hsplit, List.filter_append, List.map_append, partsOf, partsOf]

/-- A leading slash adds no part. -/
theorem partsOf_cons_slash (cs : List Char) :
    partsOf ('/' :: cs) = partsOf cs :=
  partsOf_slash_append [] cs

-- =============================================================== anchors

/-- Joined parts do not start with a slash. -/
theorem takeWhile_intercalate {parts : List String}
    (hproper : ∀ part ∈ parts, isPart part.toList = true) :
    (['/'].intercalate (parts.map String.toList)).takeWhile (· == '/')
      = [] := by
  cases parts with
  | nil => rfl
  | cons first rest =>
      obtain ⟨c, r, hfirst, hc⟩ :=
        head?_of_isPart (hproper first List.mem_cons_self)
      have hhead : ∃ t, ['/'].intercalate ((first :: rest).map String.toList)
          = c :: t := by
        cases rest with
        | nil => exact ⟨r, by rw [List.map_cons, List.map_nil,
            List.intercalate_singleton, hfirst]⟩
        | cons next rest =>
            rw [List.map_cons, List.map_cons, List.intercalate_cons_cons,
              hfirst]
            exact ⟨_, rfl⟩
      obtain ⟨t, ht⟩ := hhead
      rw [ht, List.takeWhile_cons_of_neg (by simpa using hc)]

/-- The anchor is read off the slashes that it is written with. -/
theorem anchorOf_append {a : Anchor} {cs : List Char}
    (h : cs.takeWhile (· == '/') = []) :
    anchorOf (anchorChars a ++ cs) = a := by
  have hlen : ((anchorChars a ++ cs).takeWhile (· == '/')).length
      = (anchorChars a).length := by
    cases a <;> simp [anchorChars, h]
  rw [anchorOf, hlen]
  cases a <;> rfl

theorem partsOf_append (a : Anchor) (cs : List Char) :
    partsOf (anchorChars a ++ cs) = partsOf cs := by
  cases a with
  | relative => rfl
  | slash => exact partsOf_cons_slash cs
  | doubleSlash =>
      exact (partsOf_cons_slash ('/' :: cs)).trans (partsOf_cons_slash cs)

-- ================================================================= texts

/-- A path is written as its anchor and its parts, or as a dot when
there is neither. -/
theorem chars_cases (p : Path) :
    p.chars = anchorChars p.anchor
      ++ ['/'].intercalate (p.parts.map String.toList)
      ∨ p.anchor = .relative ∧ p.parts = [] ∧ p.chars = ['.'] := by
  unfold chars
  split
  · next hanchor hparts => exact Or.inr ⟨hanchor, hparts, rfl⟩
  · exact Or.inl rfl

theorem partsOf_chars (p : Path) : partsOf p.chars = p.parts := by
  rcases chars_cases p with hchars | ⟨-, hparts, hchars⟩
  · rw [hchars, partsOf_append, partsOf_intercalate p.proper]
  · rw [hchars, hparts]
    rfl

theorem anchorOf_chars (p : Path) : anchorOf p.chars = p.anchor := by
  rcases chars_cases p with hchars | ⟨hanchor, -, hchars⟩
  · rw [hchars]
    exact anchorOf_append (takeWhile_intercalate p.proper)
  · rw [hchars, hanchor]
    rfl

/-- What a path starts from shows in any text that starts with that of the path
and goes on. -/
theorem anchorOf_chars_append {p : Path} (h : p.parts ≠ []) (cs : List Char) :
    anchorOf (p.chars ++ cs) = p.anchor := by
  have hnone := takeWhile_intercalate p.proper
  have hsome : ['/'].intercalate (p.parts.map String.toList) ≠ [] :=
    fun hnil => by
    have hparts := partsOf_intercalate p.proper
    rw [hnil] at hparts
    exact h hparts.symm
  rcases chars_cases p with hchars | ⟨-, hnil, -⟩
  · rw [hchars, List.append_assoc]
    refine anchorOf_append ?_
    obtain ⟨c, rest, hcons⟩ := List.exists_cons_of_ne_nil hsome
    rw [hcons] at hnone ⊢
    by_cases hc : c = '/'
    · subst hc
      cases hnone
    · rw [List.cons_append, List.takeWhile_cons_of_neg (by simpa using hc)]
  · exact absurd hnil h

/-- A path reads back from its text. -/
theorem parse_text (p : Path) : parse p.text = p := by
  rw [parse, Path.mk.injEq, text, String.toList_ofList]
  exact ⟨anchorOf_chars p, partsOf_chars p⟩

theorem chars_injective {p q : Path} (h : p.chars = q.chars) : p = q := by
  rw [← parse_text p, ← parse_text q, text, text, h]

/-- Joining two runs of parts puts a slash between them. -/
theorem intercalate_append {xs ys : List (List Char)} (hxs : xs ≠ [])
    (hys : ys ≠ []) :
    ['/'].intercalate (xs ++ ys) = ['/'].intercalate xs
      ++ '/' :: ['/'].intercalate ys := by
  induction xs with
  | nil => exact absurd rfl hxs
  | cons x xs ih =>
      cases xs with
      | nil =>
          obtain ⟨y, ys, rfl⟩ := List.exists_cons_of_ne_nil hys
          rw [List.singleton_append, List.intercalate_cons_cons,
            List.intercalate_singleton, List.append_assoc,
            List.singleton_append]
      | cons x' xs =>
          rw [List.cons_append, List.cons_append, List.intercalate_cons_cons,
            ← List.cons_append, ih (List.cons_ne_nil _ _),
            List.intercalate_cons_cons, List.append_assoc, List.append_assoc,
            List.append_assoc]

/-- Further parts are written after a slash. -/
theorem chars_append {p q : Path} {more : List String}
    (hanchor : p.anchor = q.anchor)
    (hparts : p.parts = q.parts ++ more) (hq : q.parts ≠ [])
    (hmore : more ≠ []) :
    p.chars = q.chars ++ '/' :: ['/'].intercalate
      (more.map String.toList) := by
  have hp : p.parts ≠ [] := hparts ▸ List.append_ne_nil_of_left_ne_nil hq _
  rcases chars_cases p with hpchars | ⟨-, hnil, -⟩
  · rcases chars_cases q with hqchars | ⟨-, hnil, -⟩
    · rw [hpchars, hqchars, hanchor, hparts, List.map_append,
        intercalate_append (by simpa using hq) (by simpa using hmore),
        List.append_assoc]
    · exact absurd hnil hq
  · exact absurd hnil hp

end GitPersona.Path
