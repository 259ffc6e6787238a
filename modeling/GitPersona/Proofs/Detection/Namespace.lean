/-
A full score pins the namespace. A pattern with wildcards scores one on
exactly the URLs that start, character by character, with everything up
to the pattern's last separator, host and owner among it, and go on with
what its last segment takes (`scoreUrl_pins_namespace`). No wildcard
reaches back over a separator: the part of a pattern that holds none is
taken off a URL as it stands (`Glob.accepts_append_iff`).

A pattern without wildcards has four spellings, with and without `.git`
and a slash at the end, and so has a URL. All four come down to the one
text that they spell (`bareUrl_of_spelling`), so which of them stands in
a configuration never decides a score.
-/
import GitPersona.Detection.Signal
import GitPersona.Proofs.Glob.Cuts
import Mathlib.Data.List.DropRight

namespace GitPersona

-- ================================================== statement vocabulary

/-- A text without wildcard characters. -/
def Glob.WildcardFree (cs : List Char) : Prop :=
  ∀ c ∈ cs, c ≠ '*' ∧ c ≠ '?' ∧ c ≠ '['

/-- A pattern is cut after its last separator. -/
structure Glob.CutAtNamespace (pattern head last : List Char) : Prop where
  split : pattern = head ++ last
  ends : ∃ front sep, head = front ++ [sep] ∧ (sep = '/' ∨ sep = ':')
  rest : ∀ c ∈ last, c ≠ '/' ∧ c ≠ ':'

/-- A URL that ends neither in a slash nor in `.git`. -/
structure Detection.Unadorned (url : String) : Prop where
  noSlash : ¬['/'] <:+ url.toList
  noSuffix : ¬".git".toList <:+ url.toList

/-- The ways to write a URL that do not count as different. -/
def Detection.spellings (url : String) : List String :=
  [url, url ++ "/", url ++ ".git", url ++ ".git/"]

-- ====================================================== the last separator

namespace Glob

variable {pattern head last : List Char}

theorem isLiteral_iff {cs : List Char} :
    isLiteral cs = true ↔ WildcardFree cs := by
  simp [isLiteral, WildcardFree, isWildcard, and_assoc]

/-- There is one place to cut a pattern after its last separator. -/
theorem CutAtNamespace.namespacePart_eq
    (h : CutAtNamespace pattern head last) :
    namespacePart pattern = head := by
  obtain ⟨rfl, ⟨front, sep, rfl, hsep⟩, hrest⟩ := h
  show List.rdropWhile _ _ = _
  induction last using List.reverseRecOn with
  | nil =>
      rw [List.append_nil, List.rdropWhile_concat_neg]
      rcases hsep with rfl | rfl <;> decide
  | append_singleton last c ih =>
      rw [← List.append_assoc, List.rdropWhile_concat_pos]
      · exact ih fun d hd => hrest d (List.mem_append_left _ hd)
      · simpa using hrest c (List.mem_append_right _ List.mem_cons_self)

/-- A pattern with a separator can be cut after the last one. -/
theorem exists_cutAtNamespace (h : namespacePart pattern ≠ []) :
    ∃ last, CutAtNamespace pattern (namespacePart pattern) last := by
  refine ⟨pattern.rtakeWhile fun c => c != '/' && c != ':', ?_, ?_,
    fun c hc => ?_⟩
  · exact List.rdropWhile_append_rtakeWhile.symm
  · refine ⟨_, _, (List.dropLast_append_getLast h).symm, ?_⟩
    have hlast : ¬((namespacePart pattern).getLast h != '/'
        && (namespacePart pattern).getLast h != ':')
          = true := List.rdropWhile_last_not _ _ h
    simpa [Decidable.or_iff_not_imp_left] using hlast
  · simpa using List.mem_rtakeWhile_imp hc

theorem wildcardsInLastSegment_iff (h : isLiteral pattern = false) :
    wildcardsInLastSegment pattern = true
      ↔ ∃ head last, CutAtNamespace pattern head last ∧ WildcardFree head := by
  rw [wildcardsInLastSegment, h]
  simp only [Bool.not_false, Bool.true_and, Bool.and_eq_true,
    Bool.not_eq_true', List.isEmpty_eq_false_iff, isLiteral_iff]
  constructor
  · rintro ⟨hne, hfree⟩
    obtain ⟨last, hcut⟩ := exists_cutAtNamespace hne
    exact ⟨_, last, hcut, hfree⟩
  · rintro ⟨head, last, hcut, hfree⟩
    obtain ⟨front, sep, hhead, -⟩ := hcut.ends
    rw [hcut.namespacePart_eq]
    exact ⟨by simp [hhead], hfree⟩

end Glob

namespace Detection

open Glob (CutAtNamespace WildcardFree)

-- =============================================================== spellings

theorem bareUrl_append_slash (url : List Char) :
    bareUrl (url ++ ['/']) = bareUrl url := by
  have hdrop : Text.dropEndWhile (· == '/') (url ++ ['/'])
      = Text.dropEndWhile (· == '/') url :=
    List.rdropWhile_concat_pos _ _ _ rfl
  unfold bareUrl
  rw [hdrop]

theorem bareUrl_append_suffix (url : List Char) :
    bareUrl (url ++ ".git".toList) = url := by
  have hdrop : Text.dropEndWhile (· == '/') (url ++ ".git".toList) = url
      ++ ".git".toList := by
    rw [show url ++ ".git".toList = (url ++ ".gi".toList) ++ ['t'] by simp]
    exact List.rdropWhile_concat_neg _ _ _ (by decide)
  have hsuffix : ".git".toList.isSuffixOf (url ++ ".git".toList) = true :=
    List.isSuffixOf_iff_suffix.2 (List.suffix_append _ _)
  unfold bareUrl
  dsimp only
  rw [hdrop, if_pos hsuffix]
  exact List.take_left' (by simp)

theorem Unadorned.bareUrl_eq {url : String} (h : Unadorned url) :
    bareUrl url.toList = url.toList := by
  have hdrop : Text.dropEndWhile (· == '/') url.toList = url.toList := by
    refine List.rdropWhile_eq_self_iff.2 fun hne hslash => h.noSlash ?_
    refine ⟨url.toList.dropLast, ?_⟩
    rw [← eq_of_beq hslash]
    exact List.dropLast_append_getLast hne
  unfold bareUrl
  dsimp only
  rw [hdrop, if_neg fun hsuffix =>
    h.noSuffix (List.isSuffixOf_iff_suffix.1 hsuffix)]

/-- Every spelling of a URL comes down to the URL. -/
theorem bareUrl_of_spelling {url : String} (h : Unadorned url) {s : String}
    (hs : s ∈ spellings url) : bareUrl s.toList = url.toList := by
  have hboth : (url ++ ".git/").toList = (url.toList ++ ".git".toList)
      ++ ['/'] := by simp
  simp only [spellings, List.mem_cons, List.not_mem_nil, or_false] at hs
  rcases hs with rfl | rfl | rfl | rfl
  · exact h.bareUrl_eq
  · rw [String.toList_append]
    exact (bareUrl_append_slash _).trans h.bareUrl_eq
  · rw [String.toList_append, bareUrl_append_suffix]
  · rw [hboth, bareUrl_append_slash, bareUrl_append_suffix]

theorem wildcardFree_of_spelling {url : String} (h : WildcardFree url.toList)
    {s : String}
    (hs : s ∈ spellings url) : WildcardFree s.toList := by
  have hending : WildcardFree "/".toList ∧ WildcardFree ".git".toList
      ∧ WildcardFree ".git/".toList := by
    simp only [← Glob.isLiteral_iff]
    decide
  simp only [spellings, List.mem_cons, List.not_mem_nil, or_false] at hs
  rcases hs with rfl | rfl | rfl | rfl
  · exact h
  all_goals rw [String.toList_append]
  · exact List.forall_mem_append.2 ⟨h, hending.1⟩
  · exact List.forall_mem_append.2 ⟨h, hending.2.1⟩
  · exact List.forall_mem_append.2 ⟨h, hending.2.2⟩

/-- Texts without wildcards fit in any of their spellings exactly when they
are one text. -/
theorem scoreUrl_of_spellings {b c : String} (hfree : WildcardFree b.toList)
    (hb : Unadorned b)
    (hc : Unadorned c) {pattern url : String}
    (hpattern : pattern ∈ spellings b)
    (hurl : url ∈ spellings c) :
    scoreUrl pattern url = if b = c then 1.0 else 0.0 := by
  have hliteral := Glob.isLiteral_iff.2
    (wildcardFree_of_spelling hfree hpattern)
  have hbare : (pattern.toList == url.toList || bareUrl pattern.toList
      == bareUrl url.toList)
      = decide (b = c) := by
    rw [Bool.eq_iff_iff, Bool.or_eq_true, beq_iff_eq, beq_iff_eq,
      decide_eq_true_eq, or_iff_right_of_imp (congrArg bareUrl),
      bareUrl_of_spelling hb hpattern, bareUrl_of_spelling hc hurl,
      String.toList_inj]
  unfold scoreUrl
  dsimp only
  rw [if_pos hliteral, hbare]
  simp only [decide_eq_true_eq]

-- ================================================================= scores

/-- A pattern with wildcards fits fully where the URL starts with its
namespace, wildcards do not reach into that, and the last segment takes
what follows. -/
theorem scoreUrl_eq_one_iff {pattern : String}
    (h : Glob.isLiteral pattern.toList = false)
    (url : String) :
    scoreUrl pattern url = 1.0
      ↔ ∃ head last rest, CutAtNamespace pattern.toList head last
        ∧ WildcardFree head
          ∧ url.toList = head ++ rest ∧ Glob.accepts .sensitive last rest
            = true := by
  have hscore : scoreUrl pattern url = 1.0
      ↔ Glob.accepts .sensitive pattern.toList url.toList = true
        ∧ Glob.wildcardsInLastSegment pattern.toList = true := by
    have hglob : (0.8 : Float) ≠ 1.0 ∧ (0.0 : Float) ≠ 1.0 := by decide
    unfold scoreUrl
    dsimp only
    rw [if_neg (by rw [h]; exact Bool.false_ne_true)]
    split_ifs with haccepts hlast
    · simp [haccepts, hlast]
    · simp [hglob.1, hlast]
    · simp [hglob.2, haccepts]
  rw [hscore, Glob.wildcardsInLastSegment_iff h]
  constructor
  · rintro ⟨haccepts, head, last, hcut, hfree⟩
    rw [hcut.split, Glob.accepts_append_iff (Glob.isLiteral_iff.2 hfree)]
      at haccepts
    obtain ⟨rest, hurl, hrest⟩ := haccepts
    exact ⟨head, last, rest, hcut, hfree, hurl, hrest⟩
  · rintro ⟨head, last, rest, hcut, hfree, hurl, hrest⟩
    refine ⟨?_, head, last, hcut, hfree⟩
    rw [hcut.split, Glob.accepts_append_iff (Glob.isLiteral_iff.2 hfree)]
    exact ⟨rest, hurl, hrest⟩

-- ============================================================== main result

/-- A pattern with wildcards scores one on the URLs that begin with its
namespace and go on with what its last segment takes, as long as no wildcard
stands in the namespace. A pattern without wildcards scores one on the
spellings of its own text and zero on those of any other. -/
theorem scoreUrl_pins_namespace :
    (∀ pattern url : String, Glob.isLiteral pattern.toList = false →
        (scoreUrl pattern url = 1.0
          ↔ ∃ head last rest, CutAtNamespace pattern.toList head last
            ∧ WildcardFree head
              ∧ url.toList = head ++ rest ∧ Glob.accepts .sensitive last rest
                = true))
      ∧ ∀ b c : String, WildcardFree b.toList → Unadorned b → Unadorned c →
          ∀ pattern ∈ spellings b, ∀ url ∈ spellings c,
            scoreUrl pattern url = if b = c then 1.0 else 0.0 :=
  ⟨fun _ url h => scoreUrl_eq_one_iff h url,
    fun _ _ hfree hb hc _ hpattern _ hurl =>
      scoreUrl_of_spellings hfree hb hc hpattern hurl⟩

/-- A whole namespace is pinned by the pattern of its owner, and a repository
by its URL, though the two are spelled in different ways. -/
theorem scoreUrl_pins_ada :
    Glob.isLiteral "git@git.example:ada/*".toList = false
      ∧ scoreUrl "git@git.example:ada/*" "git@git.example:ada/app" = 1.0
      ∧ Unadorned "https://git.example/a/b"
      ∧ WildcardFree "https://git.example/a/b".toList
      ∧ scoreUrl "https://git.example/a/b.git" "https://git.example/a/b/"
        = 1.0 := by
  have hwild : Glob.isLiteral "git@git.example:ada/*".toList = false := by
    decide
  have hhost : Glob.isLiteral "git@git.example:ada/".toList = true := by decide
  have hfree : WildcardFree "https://git.example/a/b".toList :=
    Glob.isLiteral_iff.1 (by decide)
  have hbare : Unadorned "https://git.example/a/b" := ⟨by decide, by decide⟩
  obtain ⟨hpins, hspells⟩ := scoreUrl_pins_namespace
  refine ⟨hwild, ?_, hbare, hfree, ?_⟩
  · refine (hpins _ _ hwild).2
      ⟨"git@git.example:ada/".toList, ['*'], "app".toList, ?_, ?_, ?_, ?_⟩
    · exact ⟨by decide,
        ⟨"git@git.example:ada".toList, '/', by decide, Or.inl rfl⟩, by simp⟩
    · exact Glob.isLiteral_iff.1 hhost
    · decide
    · decide +kernel
  · exact hspells _ _ hfree hbare hbare _ (by decide) _ (by decide)

end Detection

end GitPersona
