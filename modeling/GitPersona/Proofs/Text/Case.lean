/-
Lower case seen from plain ASCII. Lowering may turn characters into
ASCII ones, but it does so once: what it leaves (`Settled`) it would
never turn into another ASCII character, so a text that was lowered and
that reads as an ASCII word when lowered again is that word
(`eq_of_lowerAll_eq`). That is all that is read off the table of
letters: `lowerRuns_images` says where its images lie.

Characters with one ASCII lower case are the same or both of ASCII,
where no table is asked, so neither lowering nor folding can tell them
apart.
-/
import GitPersona.Text.Case

namespace GitPersona.Text

open Case

-- ================================================================ tables

theorem mapRuns_cases (runs : List Run) (n : Nat) :
    ((∀ r ∈ runs, r.holds n = false) ∧ mapRuns runs n = n)
      ∨ ∃ r ∈ runs, r.first ≤ n ∧ n ≤ r.last ∧ mapRuns runs n = r.image n := by
  unfold mapRuns
  cases hfind : runs.find? (·.holds n) with
  | none =>
      refine Or.inl ⟨fun r hr => ?_, rfl⟩
      exact Bool.eq_false_iff.2 (List.find?_eq_none.1 hfind r hr)
  | some r =>
      have hholds := List.find?_some hfind
      simp only [Run.holds, Bool.and_eq_true, decide_eq_true_eq] at hholds
      exact Or.inr ⟨r, List.mem_of_find?_eq_some hfind, hholds.1.1, hholds.1.2,
        rfl⟩

/-- The images of the lower case mapping are characters, no capitals of ASCII,
and none of the two characters beyond ASCII that become ASCII; nothing else
becomes ASCII. -/
private theorem lowerRuns_images : ∀ r ∈ lowerRuns,
    (r.last + r.shift < 0xD800 ∨ 0xE000 ≤ r.first + r.shift
      ∧ r.last + r.shift < 0x110000)
      ∧ 0x5A < r.first + r.shift
      ∧ (∀ m ∈ [0x130, 0x212A], r.last + r.shift < m ∨ m < r.first + r.shift)
      ∧ (0x80 ≤ r.first + r.shift ∨ r.first = r.last
        ∧ r.first ∈ [0x130, 0x212A]) := by
  decide +kernel

private theorem exists_holds_kelvin :
    ∃ r ∈ lowerRuns, r.holds 0x212A = true := by
  decide +kernel

/-- An image of the lower case mapping is a character, no capital of ASCII, and
in neither respect to be mapped again. -/
private theorem image_bounds {n : Nat} {r : Run} (hr : r ∈ lowerRuns)
    (hfirst : r.first ≤ n)
    (hlast : n ≤ r.last) :
    (r.image n).isValidChar ∧ 0x5A < r.image n ∧ r.image n ∉ [0x130, 0x212A]
      ∧ (0x80 ≤ r.image n ∨ n ∈ [0x130, 0x212A]) := by
  obtain ⟨hvalid, hcapital, hapart, hascii⟩ := lowerRuns_images r hr
  have hlow := hapart 0x130 (by simp)
  have hhigh := hapart 0x212A (by simp)
  unfold Run.image Nat.isValidChar
  refine ⟨by omega, by omega, ?_, ?_⟩
  · simp only [List.mem_cons, List.not_mem_nil, or_false]
    omega
  · simp only [List.mem_cons, List.not_mem_nil, or_false] at hascii ⊢
    omega

-- ============================================================ characters

/-- A character that lowering turns into no other ASCII character. -/
def Settled (c : Char) : Prop :=
  ¬(0x41 ≤ c.toNat ∧ c.toNat ≤ 0x5A) ∧ c.toNat ∉ [0x130, 0x212A]

theorem toNat_toLower (c : Char) :
    c.toLower.toNat = if 0x41 ≤ c.toNat ∧ c.toNat ≤ 0x5A then c.toNat + 32
      else c.toNat := by
  have hge : c.val ≥ 'A'.val ↔ 0x41 ≤ c.toNat := UInt32.le_iff_toNat_le
  have hle : c.val ≤ 'Z'.val ↔ c.toNat ≤ 0x5A := UInt32.le_iff_toNat_le
  unfold Char.toLower
  split
  · next h =>
    rw [hge, hle] at h
    rw [if_pos h]
    show (c.val + 32).toNat = c.toNat + 32
    rw [UInt32.toNat_add]
    exact Nat.mod_eq_of_lt (show c.toNat + 32 < 2 ^ 32 by omega)
  · next h =>
    rw [hge, hle] at h
    rw [if_neg h]

/-- Beyond ASCII, a character is left alone or becomes the image of
its code point. -/
theorem lower_cases {c : Char} (h : 0x80 ≤ c.toNat) :
    (lower c = c ∧ c.toNat ≠ 0x212A)
      ∨ ∃ r ∈ lowerRuns, r.first ≤ c.toNat ∧ c.toNat ≤ r.last
          ∧ (lower c).toNat = r.image c.toNat := by
  have hlower : lower c = Char.ofNat (mapRuns lowerRuns c.toNat) :=
    if_neg (by omega)
  rcases mapRuns_cases lowerRuns c.toNat with
    ⟨hnone, hmap⟩ | ⟨r, hr, hfirst, hlast, hmap⟩
  · refine Or.inl ⟨by rw [hlower, hmap, Char.ofNat_toNat], fun hkelvin => ?_⟩
    obtain ⟨r, hr, hholds⟩ := exists_holds_kelvin
    rw [← hkelvin, hnone r hr] at hholds
    cases hholds
  · refine Or.inr ⟨r, hr, hfirst, hlast, ?_⟩
    rw [hlower, hmap, Char.ofNat, dif_pos (image_bounds hr hfirst hlast).1]
    rfl

theorem settled_lower {c : Char} (h : c.toNat ≠ 0x130) :
    Settled (lower c) := by
  by_cases hascii : c.toNat < 0x80
  · have hlower : (lower c).toNat = c.toLower.toNat := by
      rw [lower, if_pos hascii]
    rw [toNat_toLower] at hlower
    simp only [Settled, List.mem_cons, List.not_mem_nil, or_false]
    split at hlower <;> omega
  · rcases lower_cases (Nat.not_lt.1 hascii) with
      ⟨hself, hkelvin⟩ | ⟨r, hr, hfirst, hlast, himage⟩
    · rw [hself]
      simp only [Settled, List.mem_cons, List.not_mem_nil, or_false]
      omega
    · obtain ⟨-, hcapital, hapart, -⟩ := image_bounds hr hfirst hlast
      unfold Settled
      rw [himage]
      exact ⟨by omega, hapart⟩

/-- A settled character whose lower case is ASCII is its own lower case. -/
theorem lower_eq_of_settled {c : Char} (hc : Settled c)
    (h : (lower c).toNat < 0x80) :
    lower c = c := by
  by_cases hascii : c.toNat < 0x80
  · have hlower : lower c = c.toLower := if_pos hascii
    have hsame := toNat_toLower c
    rw [if_neg hc.1] at hsame
    rw [hlower, ← Char.ofNat_toNat c.toLower, hsame, Char.ofNat_toNat]
  · rcases lower_cases (Nat.not_lt.1 hascii) with
      ⟨hself, -⟩ | ⟨r, hr, hfirst, hlast, himage⟩
    · exact hself
    · obtain ⟨-, -, -, hfar | hsource⟩ := image_bounds hr hfirst hlast
      · omega
      · exact absurd hsource hc.2

/-- Characters with one ASCII lower case are the same, or both of ASCII. -/
theorem eq_or_ascii_of_toLower_eq {c d : Char} (h : c.toLower = d.toLower) :
    c = d ∨ c.toNat < 0x80 ∧ d.toNat < 0x80 := by
  have hnat := congrArg Char.toNat h
  rw [toNat_toLower, toNat_toLower] at hnat
  rw [← Char.toNat_inj]
  split at hnat
  · split at hnat
    · omega
    · omega
  · split at hnat
    · omega
    · omega

theorem lower_eq_of_toLower_eq {c d : Char} (h : c.toLower = d.toLower) :
    lower c = lower d := by
  rcases eq_or_ascii_of_toLower_eq h with rfl | ⟨hc, hd⟩
  · rfl
  · rw [lower, lower, if_pos hc, if_pos hd, h]

theorem foldChar_eq_of_toLower_eq {c d : Char} (h : c.toLower = d.toLower) :
    foldChar c = foldChar d := by
  rcases eq_or_ascii_of_toLower_eq h with rfl | ⟨hc, hd⟩
  · rfl
  · rw [foldChar, foldChar, if_pos hc, if_pos hd, h]

-- ================================================================= texts

theorem settled_of_mem_lowerAll {c : Char} {cs : List Char}
    (h : c ∈ lowerAll cs) : Settled c := by
  obtain ⟨d, -, hc⟩ := List.mem_flatMap.1 h
  split at hc
  · simp only [List.mem_cons, List.not_mem_nil, or_false] at hc
    rcases hc with rfl | rfl
    · unfold Settled
      decide
    · unfold Settled
      decide
  · next hd =>
    rw [List.mem_singleton.1 hc]
    exact settled_lower hd

/-- What was lowered, and reads as an ASCII word when it is lowered again,
is that word. -/
theorem eq_of_lowerAll_eq {cs word : List Char} (hcs : ∀ c ∈ cs, Settled c)
    (hword : ∀ c ∈ word, c.toNat < 0x80) (h : lowerAll cs = word) :
    cs = word := by
  induction cs generalizing word with
  | nil => exact h
  | cons c cs ih =>
      have hc := hcs c List.mem_cons_self
      have hdot : c.toNat ≠ 0x130 := fun hdot => hc.2 (by simp [hdot])
      have hcons : lowerAll (c :: cs) = lower c :: lowerAll cs := by
        rw [lowerAll, List.flatMap_cons, if_neg hdot]
        rfl
      rw [← h, hcons] at hword ⊢
      rw [lower_eq_of_settled hc (hword _ List.mem_cons_self),
        ← ih (fun d hd => hcs d (List.mem_cons_of_mem _ hd))
          (fun d hd => hword d (List.mem_cons_of_mem _ hd)) rfl]

end GitPersona.Text
