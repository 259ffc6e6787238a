/-
What an exact match is. A match counts as exact from a score of `0.99`
on, and only the name brings so much: by being the query, or, if
distances are looked at, by one edit at most in a hundred characters
(`isExact_iff`). Of fewer than a hundred characters no part is so small,
so that there an exact match is of a name that is the query.

# Where the mark falls

At one edit in exactly a hundred characters what is computed is the mark
itself, and rounding keeps order, so a smaller share reaches it too. The
next greater share of fewer than `2 ^ 42` characters is greater by more
than `2 ^ -49`, which is some twenty times the distance of doubles below
one. Neither the quotient nor the difference can be rounded across that
(`le_one_sub_ratio_iff`).
-/
import GitPersona.Proofs.Lookup.Edits
import GitPersona.Proofs.Lookup.Fields

namespace GitPersona.Lookup

open Number (HasValue scaled)

variable {m : Matcher} {query target : String} {p : Profile}

-- ============================================================= the mark

/-- A share that is greater than one in a hundred leaves less than the mark,
unless the texts are very long. -/
theorem one_sub_ratio_lt {d n : Nat} (hdn : d ≤ n) (hlt : n < 2 ^ 42)
    (hmore : n < 100 * d) :
    1.0 - ratio d n < 0.99 := by
  have hbeyond : HasValue 0.010000000000002 (scaled 5764607523035388 (-59)) :=
    ⟨false, _, _, by decide +kernel, rfl⟩
  have hshort : HasValue 0.989999999999999 (scaled 8917127262193573 (-53)) :=
    ⟨false, _, _, by decide +kernel, rfl⟩
  have hlength : (0 : ℚ) < n := Nat.cast_pos.2 (by omega)
  have hshare : scaled 5764607523035388 (-59) ≤ (d : ℚ) / n := by
    have hbound : (n : ℚ) ≤ 2 ^ 42 := by exact_mod_cast hlt.le
    have hcount : (n : ℚ) + 1 ≤ 100 * d := by exact_mod_cast hmore
    rw [le_div_iff₀ hlength]
    norm_num [scaled]
    linarith
  obtain ⟨share, hratio, -⟩ := exists_share hdn (by omega)
  have hquotient := (isRounding_ratio d (n := n) (by omega)).ge_of_ge hbeyond
    hshare
  have hless : 1.0 - ratio d n ≤ 0.989999999999999 := by
    refine (Number.isRounding_sub Number.hasValue_one hratio).le_of_le hshort
      ?_
    have hgreater := (hbeyond.le_iff hratio).1 hquotient
    norm_num [scaled] at hgreater ⊢
    linarith
  exact Number.lt_of_le_of_lt hless (by decide)

/-- What a share leaves of one reaches the mark exactly up to one
in a hundred. -/
theorem le_one_sub_ratio_iff {d n : Nat} (hdn : d ≤ n) (hn : 0 < n)
    (hlt : n < 2 ^ 42) :
    0.99 ≤ 1.0 - ratio d n ↔ 100 * d ≤ n := by
  constructor
  · intro hreached
    by_contra hmore
    exact Number.not_le_of_lt (one_sub_ratio_lt hdn hlt (by omega)) hreached
  · intro hfew
    have hmark : (0.99 : Float) ≤ 1.0 - ratio 1 100 := by decide +kernel
    have hshare : (d : ℚ) / n ≤ (1 : ℕ) / (100 : ℕ) := by
      rw [div_le_div_iff₀ (Nat.cast_pos.2 hn) (by norm_num)]
      have hcount : (100 : ℚ) * d ≤ n := by exact_mod_cast hfew
      push_cast
      linarith
    exact Number.le_trans hmark
      (levenshtein_le_levenshtein hdn (by decide) hn (by decide) hshare)

-- ============================================================ the score

/-- A text scores as much as the mark when it is the query, or by a small
enough distance. -/
theorem exact_le_score_iff (hquery : Text.normalize query ≠ [])
    (hlength : query.length < 2 ^ 40)
    (htarget : target.length < 2 ^ 40) (a : Algorithm) :
    0.99 ≤ score a query target
      ↔ Text.normalize query = Text.normalize target ∨ a = .levenshtein
        ∧ 100 * editDistance (Text.normalize query) (Text.normalize target)
          ≤ max (Text.normalize query).length
            (Text.normalize target).length := by
  have hqlt := Text.length_normalize_le query
  have htlt := Text.length_normalize_le target
  have hpositive := List.length_pos_of_ne_nil hquery
  by_cases hsame : Text.normalize query = Text.normalize target
  · rw [score_of_normalize_eq hsame]
    exact iff_of_true (by decide) (Or.inl hsame)
  · rw [or_iff_right hsame]
    by_cases hblank : Text.normalize target = []
    · have hnone : score a query target = 0.0 := by
        unfold score scoreNormalized
        rw [if_neg hsame, if_pos (Or.inr hblank)]
      rw [hnone, hblank, editDistance_nil_right]
      refine iff_of_false (by decide) fun h => ?_
      have hfew := h.2
      rw [List.length_nil] at hfew
      omega
    · by_cases ha : a = .levenshtein
      · subst ha
        rw [score_levenshtein_eq hquery hblank hsame, eq_self, true_and]
        exact le_one_sub_ratio_iff (editDistance_le _ _) (by omega) (by omega)
      · -- without being the query, the others stay well below one
        refine iff_of_false (fun hreached => ?_) fun h => ha h.1
        have hother := similarity_le_wellBelowOne (t := Text.normalize target)
          hquery (by omega) ha
        have hshort : clamp wellBelowOne < 0.99 := by decide
        rw [score_of_normalize_ne hquery hblank hsame] at hreached
        exact Number.not_le_of_lt
          (Number.lt_of_le_of_lt (Number.clamp_le_clamp hother) hshort)
          hreached

-- ============================================================ the match

/-- What an exact match comes from, by the computed distance. -/
theorem exists_isExact_iff (halgorithms : m.algorithms ≠ [])
    (hquery : Text.normalize query ≠ [])
    (hlength : query.length < 2 ^ 40) (hname : p.name.length < 2 ^ 40) :
    (∃ r, m.scoreProfile query p = some r ∧ r.isExact = true)
      ↔ m.settings.matchName = true
        ∧ (Text.normalize query = Text.normalize p.name
          ∨ .levenshtein ∈ m.algorithms
            ∧ 100 * editDistance (Text.normalize query) (Text.normalize p.name)
              ≤ max (Text.normalize query).length
                (Text.normalize p.name).length) := by
  simp only [Match.isExact, ge_iff_le, decide_eq_true_eq]
  rw [reaches_by_name_iff (by decide) hquery]
  simp only [exact_le_score_iff hquery hlength hname]
  apply and_congr_right
  intro hon
  constructor
  · intro h
    obtain ⟨a, ha, hsame | ⟨rfl, hfew⟩⟩ := h
    · exact Or.inl hsame
    · exact Or.inr ⟨ha, hfew⟩
  · intro h
    obtain hsame | ⟨ha, hfew⟩ := h
    · obtain ⟨a, ha⟩ := List.exists_mem_of_ne_nil m.algorithms halgorithms
      exact ⟨a, ha, Or.inl hsame⟩
    · exact ⟨.levenshtein, ha, Or.inr ⟨rfl, hfew⟩⟩

/-- A profile is an exact match when its name is searched and is the query, or
is so near to it that one character in a hundred has to be edited at most; with
fewer than a hundred characters it is the query. -/
theorem isExact_iff (halgorithms : m.algorithms ≠ [])
    (hquery : Text.strip query.toList ≠ [])
    (hlength : query.length < 2 ^ 40) (hname : p.name.length < 2 ^ 40) :
    ∃ d, IsLeast {n | Edits n (Text.normalize query) (Text.normalize p.name)} d
      ∧ ((∃ r, m.scoreProfile query p = some r ∧ r.isExact = true)
        ↔ m.settings.matchName = true
          ∧ (Text.normalize query = Text.normalize p.name
            ∨ .levenshtein ∈ m.algorithms
              ∧ 100 * d ≤ max (Text.normalize query).length
                (Text.normalize p.name).length))
      ∧ ((Text.normalize query).length < 100 →
        (Text.normalize p.name).length < 100 →
        ∀ r ∈ m.scoreProfile query p, r.isExact = true →
          Text.normalize query = Text.normalize p.name) := by
  have hexact := exists_isExact_iff halgorithms
    (Text.normalize_eq_nil_iff.not.2 hquery) hlength
    hname
  refine ⟨_, isLeast_editDistance _ _, hexact, fun hqlt htlt r hr hmark => ?_⟩
  obtain ⟨-, hsame | ⟨-, hfew⟩⟩ := hexact.1 ⟨r, hr, hmark⟩
  · exact hsame
  · exact editDistance_eq_zero_iff.1 (by omega)

/-- A profile named by so many equal letters. -/
def namedByLetters (n : Nat) : Profile :=
  { name := String.ofList (List.replicate n 'a'),
    email := "a@letters.example" }

theorem strip_letters (n : Nat) :
    Text.strip (namedByLetters n).name.toList = List.replicate n 'a' := by
  have hletter : Text.isBlank 'a' = false := by decide
  simp [namedByLetters, Text.strip, Text.trimWhile, Text.dropEndWhile, hletter]

theorem normalize_letters (n : Nat) :
    Text.normalize (namedByLetters n).name = List.replicate n 'a' := by
  have hletter : Text.foldChar 'a' = ['a'] := by decide
  rw [Text.normalize, strip_letters, Text.fold, List.flatMap_replicate,
    hletter, List.flatten_replicate_singleton]

/-- With a hundred letters in the name one may be missing from the query, with
ninety-nine none. -/
theorem isExact_iff_letters :
    Text.normalize (namedByLetters 99).name
      ≠ Text.normalize (namedByLetters 100).name
      ∧ (∃ r, (Matcher.ofSettings {}).scoreProfile (namedByLetters 99).name
        (namedByLetters 100)
        = some r ∧ r.isExact = true)
      ∧ ¬∃ r, (Matcher.ofSettings {}).scoreProfile (namedByLetters 98).name
        (namedByLetters 99)
        = some r ∧ r.isExact = true := by
  have hblank : ∀ n, Text.strip (namedByLetters (n + 1)).name.toList ≠ [] := by
    intro n
    rw [strip_letters]
    simp
  have hlength : ∀ n ≤ 100, (namedByLetters n).name.length < 2 ^ 40 := by
    intro n hn
    simp only [namedByLetters, String.length_ofList, List.length_replicate]
    omega
  refine ⟨?_, ?_, fun h => ?_⟩
  · rw [normalize_letters, normalize_letters]
    intro hsame
    have hlengths := congrArg List.length hsame
    simp at hlengths
  · obtain ⟨d, hleast, hexact, -⟩ := isExact_iff (m := Matcher.ofSettings {})
      (p := namedByLetters 100) (by decide) (hblank 98)
        (hlength 99 (by decide))
      (hlength 100 (by decide))
    have hdistance : editDistance (List.replicate 99 'a')
        (List.replicate 99 'a' ++ ['a']) = 1 :=
      editDistance_append _ _
    rw [normalize_letters, normalize_letters] at hleast hexact
    rw [← List.replicate_succ', ← hleast.unique (isLeast_editDistance _ _)]
      at hdistance
    refine hexact.2 ⟨rfl, Or.inr ⟨by decide, ?_⟩⟩
    simp [hdistance]
  · obtain ⟨r, hr, hmark⟩ := h
    obtain ⟨_, -, -, hfew⟩ :=
      isExact_iff (m := Matcher.ofSettings {}) (p := namedByLetters 99)
      (by decide) (hblank 97) (hlength 98 (by decide)) (hlength 99 (by decide))
    rw [normalize_letters, normalize_letters] at hfew
    have hsame := congrArg List.length (hfew (by simp) (by simp) r hr hmark)
    simp at hsame

end GitPersona.Lookup
