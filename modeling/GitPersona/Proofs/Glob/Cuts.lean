/-
The matcher accepts the texts that can be cut. It never goes back: an
interior segment takes its leftmost place and keeps it. Any other place
would leave a suffix of what the leftmost leaves, and what follows a
star takes a text whenever it takes a suffix of it, so no cut is lost
(`fitsAfterStar_iff`). The reader's side is `Proofs/Glob/Reading.lean`;
`accepts_sensitive_iff` puts the two together, and `accepts_append_iff`
takes off the start of a pattern that holds no wildcard.
-/
import GitPersona.Proofs.Glob.Reading
import Mathlib.Data.List.Forall2

namespace GitPersona.Glob

variable {casing : Casing}

-- ============================================================ fixed pieces

/-- A segment stands on a piece: its elements take the
characters one by one. -/
def Stands (casing : Casing) (segment : List Element)
    (piece : List Char) : Prop :=
  List.Forall₂ (fun e c => e.takes casing c = true) segment piece

/-- A segment stands for pieces of its length. -/
theorem Stands.length_eq {segment : List Element} {piece : List Char}
    (h : Stands casing segment piece) : segment.length = piece.length :=
  List.Forall₂.length_eq h

/-- Testing a segment finds whether it stands for a piece. -/
theorem fits_iff {segment : List Element} {cs : List Char} :
    fits casing segment cs = true ↔ Stands casing segment cs := by
  induction segment generalizing cs with
  | nil =>
      cases cs with
      | nil => simp [fits, Stands]
      | cons c cs => simp [fits, Stands]
  | cons e es ih =>
      cases cs with
      | nil => simp [fits, Stands]
      | cons c cs => simp [fits, Stands, ih]

/-- A segment is taken off the start exactly where it stands at the start. -/
theorem afterStart?_eq_some_iff {segment : List Element}
    {cs rest : List Char} :
    afterStart? casing segment cs = some rest
      ↔ ∃ piece, cs = piece ++ rest ∧ Stands casing segment piece := by
  induction segment generalizing cs with
  | nil => simp [afterStart?, Stands]
  | cons e es ih =>
      cases cs with
      | nil =>
          simp only [afterStart?, reduceCtorEq, false_iff, not_exists, not_and]
          intro piece hcs hstands
          obtain ⟨rfl, -⟩ := List.nil_eq_append_iff.1 hcs
          cases hstands
      | cons c cs =>
          simp only [afterStart?, Option.ite_none_right_eq_some, ih]
          constructor
          · rintro ⟨htakes, piece, rfl, hstands⟩
            exact ⟨c :: piece, rfl, List.Forall₂.cons htakes hstands⟩
          · rintro ⟨piece, hcs, hstands⟩
            cases hstands with
            | cons htakes hstands =>
                obtain ⟨rfl, rfl⟩ := List.cons.inj hcs
                exact ⟨htakes, _, rfl, hstands⟩

/-- A segment takes the end of a text exactly when it stands on a
piece there. -/
theorem fitsEnd_iff {segment : List Element} {cs : List Char} :
    fitsEnd casing segment cs = true
      ↔ ∃ run piece, cs = run ++ piece ∧ Stands casing segment piece := by
  simp only [fitsEnd, Bool.and_eq_true, decide_eq_true_eq, fits_iff]
  constructor
  · rintro ⟨-, hstands⟩
    exact ⟨_, _, (List.take_append_drop _ cs).symm, hstands⟩
  · rintro ⟨run, piece, rfl, hstands⟩
    have hlen := hstands.length_eq
    refine ⟨by rw [List.length_append]; omega, ?_⟩
    rw [show (run ++ piece).length - segment.length = run.length by
      rw [List.length_append]; omega, List.drop_left]
    exact hstands

-- ==================================================== the leftmost place

/-- Where the search finds a segment, the segment stands. -/
theorem exists_stands_of_afterFirst? {segment : List Element}
    {cs rest : List Char}
    (h : afterFirst? casing segment cs = some rest) :
    ∃ run piece, cs = run ++ (piece ++ rest)
      ∧ Stands casing segment piece := by
  induction cs with
  | nil =>
      obtain ⟨piece, hcs, hstands⟩ := afterStart?_eq_some_iff.1 h
      exact ⟨[], piece, hcs, hstands⟩
  | cons c cs ih =>
      rw [afterFirst?] at h
      split at h
      · next found hstart =>
        obtain ⟨piece, hcs, hstands⟩ := afterStart?_eq_some_iff.1 hstart
        cases h
        exact ⟨[], piece, hcs, hstands⟩
      · obtain ⟨run, piece, rfl, hstands⟩ := ih h
        exact ⟨c :: run, piece, rfl, hstands⟩

/-- Wherever a segment stands, the search finds a place, and what follows the
standing segment is a suffix of what follows the found one. -/
theorem exists_afterFirst?_of_stands {segment : List Element}
    {piece : List Char}
    (run rest : List Char) (h : Stands casing segment piece) :
    ∃ found, afterFirst? casing segment (run ++ (piece ++ rest)) = some found
      ∧ rest <:+ found := by
  induction run with
  | nil =>
      have hstart : afterStart? casing segment (piece ++ rest) = some rest :=
        afterStart?_eq_some_iff.2 ⟨piece, rfl, h⟩
      refine ⟨rest, ?_, List.suffix_rfl⟩
      rw [List.nil_append]
      cases hcs : piece ++ rest with
      | nil =>
          rw [afterFirst?, ← hcs]
          exact hstart
      | cons c cs => rw [afterFirst?, ← hcs, hstart]
  | cons c run ih =>
      rw [List.cons_append, afterFirst?]
      cases hstart : afterStart? casing segment (c :: (run ++ (piece ++ rest)))
        with
      | none => exact ih
      | some found =>
          obtain ⟨piece', hcs, hstands⟩ := afterStart?_eq_some_iff.1 hstart
          have hwhole : rest <:+ c :: (run ++ (piece ++ rest)) :=
            ⟨c :: run ++ piece, by simp⟩
          have hfound : found <:+ c :: (run ++ (piece ++ rest)) :=
            ⟨piece', hcs.symm⟩
          -- segments stand on equally many characters, so the earlier
          -- place leaves the longer rest
          have hlen := congrArg List.length hcs
          have hsame := h.length_eq.symm.trans hstands.length_eq
          simp only [List.length_cons, List.length_append] at hlen
          exact ⟨found, rfl,
            List.suffix_of_suffix_length_le hwhole hfound (by omega)⟩

-- ===================================================== cuts, by segments

/-- A star takes any run of characters. -/
theorem cut_star_iff {es : List Element} {cs : List Char} :
    Cut casing (.star :: es) cs ↔ ∃ run rest, cs = run ++ rest
      ∧ Cut casing es rest := by
  constructor
  · intro h
    cases h with
    | run piece hrest => exact ⟨piece, _, rfl, hrest⟩
    | one htakes _ => cases htakes
  · rintro ⟨run, rest, rfl, hrest⟩
    exact Cut.run run hrest

/-- What follows a star takes a text whenever it takes a suffix of the text. -/
theorem Cut.of_suffix {es : List Element} {cs ds : List Char}
    (h : Cut casing (.star :: es) cs)
    (hsuffix : cs <:+ ds) : Cut casing (.star :: es) ds := by
  obtain ⟨more, rfl⟩ := hsuffix
  obtain ⟨run, rest, rfl, hrest⟩ := cut_star_iff.1 h
  rw [← List.append_assoc]
  exact Cut.run _ hrest

/-- Elements without a star cut a piece off the start, one
character for each. -/
theorem cut_append_iff {segment es : List Element} {cs : List Char}
    (hfree : .star ∉ segment) :
    Cut casing (segment ++ es) cs
      ↔ ∃ piece rest, cs = piece ++ rest ∧ Stands casing segment piece
        ∧ Cut casing es rest := by
  induction segment generalizing cs with
  | nil => simp [Stands]
  | cons e segment ih =>
      rw [List.mem_cons, not_or] at hfree
      constructor
      · intro h
        cases h with
        | run _ _ => exact absurd rfl hfree.1
        | one htakes hrest =>
            obtain ⟨piece, rest, rfl, hstands, hes⟩ := (ih hfree.2).1 hrest
            exact ⟨_ :: piece, rest, rfl, List.Forall₂.cons htakes hstands,
              hes⟩
      · rintro ⟨piece, rest, rfl, hstands, hes⟩
        cases hstands with
        | cons htakes hstands =>
            exact Cut.one htakes ((ih hfree.2).2 ⟨_, rest, rfl, hstands, hes⟩)

/-- Without a star, a text is cut into single characters. -/
theorem cut_iff_stands {segment : List Element} {cs : List Char}
    (hfree : .star ∉ segment) :
    Cut casing segment cs ↔ Stands casing segment cs := by
  constructor
  · intro h
    rw [← List.append_nil segment, cut_append_iff hfree] at h
    obtain ⟨piece, rest, rfl, hstands, hdone⟩ := h
    cases hdone
    rwa [List.append_nil]
  · intro h
    rw [← List.append_nil segment, cut_append_iff hfree]
    exact ⟨cs, [], (List.append_nil cs).symm, h, Cut.done⟩

/-- The elements with a star before each segment. -/
def starred (more : List (List Element)) : List Element :=
  more.flatMap fun segment => .star :: segment

/-- The segments of a pattern hold no star, and joined by stars they are
the pattern. -/
theorem segments_spec (es : List Element) : ∃ first more,
    segments es = first :: more ∧ (∀ segment ∈ first :: more, .star ∉ segment)
      ∧ es = first ++ starred more := by
  induction es with
  | nil => exact ⟨[], [], rfl, by simp, rfl⟩
  | cons e es ih =>
      obtain ⟨first, more, hsegments, hfree, hes⟩ := ih
      by_cases hstar : e = .star
      · subst hstar
        refine ⟨[], first :: more, by rw [segments, hsegments],
          fun segment hmem => ?_, ?_⟩
        · rcases List.mem_cons.1 hmem with rfl | hmem
          · exact List.not_mem_nil
          · exact hfree segment hmem
        · rw [hes]
          rfl
      · refine ⟨e :: first, more, ?_,
          fun segment hmem => ?_, by rw [hes, List.cons_append]⟩
        · rw [segments, hsegments]
          exact hstar
        · rcases List.mem_cons.1 hmem with rfl | hmem
          · rw [List.mem_cons, not_or]
            exact ⟨Ne.symm hstar, hfree first List.mem_cons_self⟩
          · exact hfree segment (List.mem_cons_of_mem _ hmem)

theorem fitsAfterStar_cons_iff {segment next : List Element}
    {more : List (List Element)}
    {cs : List Char} :
    fitsAfterStar casing (segment :: next :: more) cs = true
      ↔ ∃ rest, afterFirst? casing segment cs = some rest
        ∧ fitsAfterStar casing (next :: more) rest = true := by
  simp only [fitsAfterStar]
  cases afterFirst? casing segment cs with
  | none => simp
  | some rest => simp

/-- Committing each interior segment to its leftmost place accepts the texts
that trying every cut accepts. -/
theorem fitsAfterStar_iff {segment : List Element} {more : List (List Element)}
    {cs : List Char}
    (hfree : ∀ s ∈ segment :: more, .star ∉ s) :
    fitsAfterStar casing (segment :: more) cs = true
      ↔ Cut casing (starred (segment :: more)) cs := by
  induction more generalizing segment cs with
  | nil =>
      have hseg : .star ∉ segment := hfree segment List.mem_cons_self
      show fitsEnd casing segment cs = true
          ↔ Cut casing (.star :: (segment ++ [])) cs
      rw [List.append_nil, fitsEnd_iff, cut_star_iff]
      simp only [cut_iff_stands hseg]
  | cons next more ih =>
      have hseg : .star ∉ segment := hfree segment List.mem_cons_self
      have ihnext : ∀ rest : List Char,
          fitsAfterStar casing (next :: more) rest = true
          ↔ Cut casing (starred (next :: more)) rest :=
        fun rest => ih fun s hs => hfree s (List.mem_cons_of_mem _ hs)
      rw [fitsAfterStar_cons_iff]
      show _ ↔ Cut casing (.star :: (segment ++ starred (next :: more))) cs
      rw [cut_star_iff]
      simp only [cut_append_iff hseg]
      constructor
      · rintro ⟨rest, hfound, hrest⟩
        obtain ⟨run, piece, rfl, hstands⟩ :=
          exists_stands_of_afterFirst? hfound
        exact ⟨run, _, rfl, piece, rest, rfl, hstands, (ihnext rest).1 hrest⟩
      · rintro ⟨run, _, rfl, piece, rest, rfl, hstands, hrest⟩
        obtain ⟨found, hfound, hsuffix⟩ :=
          exists_afterFirst?_of_stands run rest hstands
        exact ⟨found, hfound, (ihnext found).2 (Cut.of_suffix hrest hsuffix)⟩

theorem fitsWhole_cons_iff {es first next : List Element}
    {more : List (List Element)}
    {cs : List Char} (h : segments es = first :: next :: more) :
    fitsWhole casing es cs = true
      ↔ ∃ rest, afterStart? casing first cs = some rest
        ∧ fitsAfterStar casing (next :: more) rest = true := by
  unfold fitsWhole
  rw [h]
  dsimp only
  cases afterStart? casing first cs with
  | none => simp
  | some rest => simp

/-- The matcher accepts the texts that can be cut, one piece for
each element. -/
theorem fitsWhole_iff {es : List Element} {cs : List Char} :
    fitsWhole casing es cs = true ↔ Cut casing es cs := by
  obtain ⟨first, more, hsegments, hfree, hes⟩ := segments_spec es
  have hfirst : .star ∉ first := hfree first List.mem_cons_self
  cases more with
  | nil =>
      rw [fitsWhole, hsegments, hes]
      show fits casing first cs = true ↔ Cut casing (first ++ []) cs
      rw [List.append_nil, fits_iff, cut_iff_stands hfirst]
  | cons next more =>
      have hnext : ∀ rest : List Char, fitsAfterStar casing (next :: more) rest
          = true
          ↔ Cut casing (starred (next :: more)) rest :=
        fun rest => fitsAfterStar_iff fun s hs =>
          hfree s (List.mem_cons_of_mem _ hs)
      rw [fitsWhole_cons_iff hsegments, hes, cut_append_iff hfirst]
      constructor
      · rintro ⟨rest, hstart, hrest⟩
        obtain ⟨piece, rfl, hstands⟩ := afterStart?_eq_some_iff.1 hstart
        exact ⟨piece, rest, rfl, hstands, (hnext rest).1 hrest⟩
      · rintro ⟨piece, rest, rfl, hstands, hrest⟩
        exact ⟨rest, afterStart?_eq_some_iff.2 ⟨piece, rfl, hstands⟩,
          (hnext rest).2 hrest⟩

-- ======================================================= whole patterns

/-- A start without wildcards is read as its characters. -/
theorem elements_append {head : List Char} (h : isLiteral head = true)
    (last : List Char) :
    elements (head ++ last) = head.map .exactly ++ elements last := by
  induction head with
  | nil => rfl
  | cons c r ih =>
      simp only [isLiteral, List.any_cons, Bool.not_eq_true',
        Bool.or_eq_false_iff] at h ih
      exact (reads_iff.1 (Reads.exactly h.1 (reads_iff.2 (ih h.2).symm))).symm

/-- A pattern without wildcards is read as its characters. -/
theorem elements_of_isLiteral {pattern : List Char}
    (h : isLiteral pattern = true) :
    elements pattern = pattern.map .exactly := by
  have hall := elements_append h []
  rwa [elements, List.append_nil, List.append_nil] at hall

/-- Characters stand for themselves. -/
theorem stands_map_exactly {pattern text : List Char} :
    Stands .sensitive (pattern.map .exactly) text ↔ pattern = text := by
  unfold Stands
  rw [List.forall₂_map_left_iff]
  simp only [Element.takes, beq_iff_eq, List.forall₂_eq_eq_eq]

/-- A pattern accepts the texts that can be cut by its elements. -/
theorem accepts_iff_cut {pattern text : List Char} :
    accepts .sensitive pattern text = true
      ↔ Cut .sensitive (elements pattern) text := by
  unfold accepts
  split
  · next hliteral =>
    have hfree : .star ∉ pattern.map Element.exactly := by simp
    rw [elements_of_isLiteral hliteral, cut_iff_stands hfree,
      stands_map_exactly]
    exact beq_iff_eq
  · exact fitsWhole_iff

/-- A start without wildcards takes itself alone, and the rest of the pattern
takes what follows. -/
theorem accepts_append_iff {head : List Char} (h : isLiteral head = true)
    (last text : List Char) :
    accepts .sensitive (head ++ last) text = true
      ↔ ∃ rest, text = head ++ rest ∧ accepts .sensitive last rest = true := by
  have hfree : .star ∉ head.map Element.exactly := by simp
  simp only [accepts_iff_cut, elements_append h, cut_append_iff hfree,
    stands_map_exactly]
  constructor
  · rintro ⟨_, rest, htext, rfl, hrest⟩
    exact ⟨rest, htext, hrest⟩
  · rintro ⟨rest, htext, hrest⟩
    exact ⟨head, rest, htext, rfl, hrest⟩

/-- A text is accepted, letter case told apart, exactly when it can be cut into
consecutive pieces, one for each element that the pattern consists of. -/
theorem accepts_sensitive_iff (pattern text : List Char) :
    accepts .sensitive pattern text = true
      ↔ ∃ es, Reads pattern es ∧ Cut .sensitive es text := by
  simp only [reads_iff, exists_eq_left]
  exact accepts_iff_cut

/-- A text is accepted, letter case ignored, if it is the pattern or else can
be cut as it reads. -/
theorem accepts_insensitive_iff {pattern text : List Char} :
    accepts .insensitive pattern text = true
      ↔ if isLiteral pattern then Text.fold pattern = Text.fold text
        else ∃ es, Reads pattern es ∧ Cut .insensitive es text := by
  unfold accepts
  split
  · exact beq_iff_eq
  · rw [fitsWhole_iff]
    simp only [reads_iff, exists_eq_left]

end GitPersona.Glob
