/-
String literals read back. In either style a written character is read
as that character, whatever follows it (`readsBack_plainChar`,
`readsBack_asciiChar`), and so is a whole literal, up to its closing
quote. A literal therefore ends where it ends: two texts that start with
a literal agree only if the literals do, and what follows them
(`plain_append_inj`, `ascii_append_inj`).
-/
import GitPersona.Json.Reader
import GitPersona.Json.Quote
import Mathlib.Data.Char

namespace GitPersona.Json

open Decimal (isHexDigit hexValue baseValue)

-- ============================================================== hex digits

/-- A hexadecimal digit is read back as its value. -/
private theorem hexDigit_spec :
    ∀ n < 16, isHexDigit (hexDigit n) = true ∧ hexValue (hexDigit n) = n := by
  decide

/-- Four written digits are read as the number that they spell. -/
theorem hex4?_hex4 {n : Nat} (h : n < 0x10000) (r : List Char) :
    hex4? (hex4 n ++ r) = some (n, r) := by
  have hdigit : ∀ k, isHexDigit (hexDigit (k % 16)) = true
      ∧ hexValue (hexDigit (k % 16)) = k % 16 :=
    fun k => hexDigit_spec _ (Nat.mod_lt _ (by decide))
  have hall : (hex4 n).all isHexDigit = true := by
    simp only [hex4, List.all_cons, List.all_nil, (hdigit _).1, Bool.and_self]
  have hvalue : baseValue 16 (hex4 n) = n := by
    simp only [baseValue, hex4, List.foldl_cons, List.foldl_nil, (hdigit _).2]
    omega
  show (if (hex4 n).all isHexDigit then some (baseValue 16 (hex4 n), r)
      else none) = some (n, r)
  rw [hall, hvalue]
  rfl

-- =========================================================== unit escapes

/-- A unit that leads no pair is read alone. -/
theorem unicode?_of_not_leading {n : Nat} {r rest : List Char}
    (hr : hex4? r = some (n, rest))
    (hn : isLeading n = false) : unicode? r = some (unitChar n, rest) := by
  unfold unicode?
  rw [hr]
  simp only
  split
  · split
    · rw [hn, Bool.false_and]
      rfl
    · rfl
  · rfl

/-- A leading and a trailing unit are read as one character. -/
theorem unicode?_of_pair {n m : Nat} {r r' rest : List Char}
    (hr : hex4? r = some (n, '\\' :: 'u' :: r'))
    (hr' : hex4? r' = some (m, rest))
    (hn : isLeading n = true) (hm : isTrailing m = true) :
    unicode? r
      = some (Char.ofNat (0x10000 + (n - 0xD800) * 0x400 + (m - 0xDC00)),
        rest) := by
  unfold unicode?
  rw [hr]
  simp only
  rw [hr']
  simp only [hn, hm, Bool.and_self, if_true]

/-- No character is one half of a pair, and none is beyond the last plane. -/
theorem toNat_bounds (c : Char) :
    c.toNat < 0xD800 ∨ 0xE000 ≤ c.toNat ∧ c.toNat < 0x110000 := by
  rcases c.valid with hlow | ⟨hlow, hhigh⟩
  · exact Or.inl hlow
  · exact Or.inr ⟨hlow, hhigh⟩

/-- The escapes of a character's units are read as that character, the first
`\u` being read already. -/
theorem unicode?_unitEscapes (c : Char) (r : List Char) :
    ∃ s, unitEscapes c.toNat ++ r = '\\' :: 'u' :: s
      ∧ unicode? s = some (c, r) := by
  have hc := toNat_bounds c
  unfold unitEscapes
  split
  · next hsmall =>
    refine ⟨hex4 c.toNat ++ r, rfl, ?_⟩
    have hlead : isLeading c.toNat = false := by
      simp only [isLeading, Bool.and_eq_false_iff, decide_eq_false_iff_not]
      omega
    rw [unicode?_of_not_leading (hex4?_hex4 hsmall r) hlead, unitChar,
      if_neg (by omega), Char.ofNat_toNat]
  · next hlarge =>
    refine ⟨hex4 (0xD800 + (c.toNat - 0x10000) / 0x400)
      ++ ('\\' :: 'u' :: (hex4 (0xDC00 + (c.toNat - 0x10000) % 0x400)
        ++ r)), ?_, ?_⟩
    · rw [List.append_assoc]
      rfl
    · rw [unicode?_of_pair (hex4?_hex4 (by omega) _) (hex4?_hex4 (by omega) r)
        (by simp only [isLeading, Bool.and_eq_true, decide_eq_true_eq]; omega)
        (by simp only [isTrailing, Bool.and_eq_true,
          decide_eq_true_eq]; omega)]
      rw [show 0x10000 + (0xD800 + (c.toNat - 0x10000) / 0x400 - 0xD800)
        * 0x400 + (0xDC00 + (c.toNat - 0x10000) % 0x400 - 0xDC00) = c.toNat by
          omega, Char.ofNat_toNat]

-- ======================================================== one character

/-- A character so written is read as itself, and the rest after it. -/
def ReadsBack (written : List Char) (c : Char) : Prop :=
  ∀ fuel r, literal? (fuel + 1) (written ++ r)
    = (literal? fuel r).map fun x => (c :: x.1, x.2)

/-- A character escaped by its code units is read back. -/
theorem readsBack_unitEscapes (c : Char) :
    ReadsBack (unitEscapes c.toNat) c := by
  intro fuel r
  obtain ⟨s, hs, hread⟩ := unicode?_unitEscapes c r
  rw [hs, literal?, hread]
  show ((literal? fuel r).bind fun x => some (c :: x.1, x.2)) = _
  cases literal? fuel r <;> rfl

/-- A short escape is read back. -/
theorem readsBack_letter {e c : Char} (he : e ≠ 'u')
    (h : escaped? e = some c) :
    ReadsBack ['\\', e] c := by
  intro fuel r
  show literal? (fuel + 1) ('\\' :: e :: r) = _
  rw [literal?, h]
  · cases literal? fuel r <;> rfl
  · exact he

/-- A character that may stand for itself is read back. -/
theorem readsBack_itself {c : Char} (hquote : c ≠ '"') (hslash : c ≠ '\\')
    (hcontrol : ¬ c.toNat < 0x20) : ReadsBack [c] c := by
  intro fuel r
  show literal? (fuel + 1) (c :: r) = _
  rw [literal?, if_neg]
  · cases literal? fuel r <;> rfl
  · simp only [Bool.or_eq_true, decide_eq_true_eq]
    exact fun h => h.elim hslash hcontrol
  · exact hquote
  · exact fun _ h _ => hslash h
  · exact fun _ _ h _ => hslash h

theorem readsBack_shortEscape {c : Char} {e : List Char}
    (h : shortEscape? c = some e) :
    ReadsBack e c := by
  unfold shortEscape? at h
  -- five characters have a letter of their own, then two more that are known
  -- by their number
  iterate 5
    split at h
    · next hc =>
      subst hc
      cases h
      exact readsBack_letter (by decide) (by decide)
  iterate 2
    split at h
    · next hc =>
      cases h
      rw [← Char.ofNat_toNat c, hc]
      exact readsBack_letter (by decide) (by decide)
  split at h
  · next hc =>
    cases h
    have hunits : unitEscapes c.toNat = unitEscape c.toNat := if_pos (by omega)
    exact hunits ▸ readsBack_unitEscapes c
  · cases h

theorem shortEscape?_eq_none {c : Char} (h : shortEscape? c = none) :
    c ≠ '"' ∧ c ≠ '\\' ∧ ¬ c.toNat < 0x20 := by
  refine ⟨?_, ?_, ?_⟩
  · rintro rfl
    cases h
  · rintro rfl
    cases h
  · intro hcontrol
    simp only [shortEscape?, hcontrol, if_true] at h
    repeat' split at h
    all_goals cases h

/-- A character is read back as it is written among others. -/
theorem readsBack_plainChar (c : Char) : ReadsBack (plainChar c) c := by
  unfold plainChar
  cases h : shortEscape? c with
  | some e => exact readsBack_shortEscape h
  | none =>
      obtain ⟨hquote, hslash, hcontrol⟩ := shortEscape?_eq_none h
      exact readsBack_itself hquote hslash hcontrol

/-- A character is read back as it is written in ASCII. -/
theorem readsBack_asciiChar (c : Char) : ReadsBack (asciiChar c) c := by
  unfold asciiChar
  cases h : shortEscape? c with
  | some e => exact readsBack_shortEscape h
  | none =>
      obtain ⟨hquote, hslash, hcontrol⟩ := shortEscape?_eq_none h
      by_cases hascii : c.toNat < 0x7F
      · simp only [hascii, if_true]
        exact readsBack_itself hquote hslash hcontrol
      · simp only [hascii, if_false]
        exact readsBack_unitEscapes c

-- ========================================================= whole literals

/-- A literal is read up to its closing quote, with as many characters allowed
as it has and any number more. -/
theorem literal?_flatMap {write : Char → List Char}
    (hwrite : ∀ c, ReadsBack (write c) c)
    (more : Nat) (cs r : List Char) :
    literal? (more + cs.length + 1) (cs.flatMap write ++ '"' :: r)
      = some (cs, r) := by
  induction cs with
  | nil => rfl
  | cons c cs ih =>
      rw [List.flatMap_cons, List.append_assoc, List.length_cons, hwrite c,
        ← Nat.add_assoc, ih]
      rfl

/-- Where a quoted text ends can be told, whatever follows. -/
private theorem quoted_append_inj {write : Char → List Char}
    (hwrite : ∀ c, ReadsBack (write c) c)
    {cs ds r r' : List Char}
    (h : ('"' :: cs.flatMap write ++ ['"'])
        ++ r = ('"' :: ds.flatMap write ++ ['"']) ++ r') :
    cs = ds ∧ r = r' := by
  have hbody : cs.flatMap write ++ '"' :: r = ds.flatMap write
      ++ '"' :: r' := by
    simpa using h
  have hcs := literal?_flatMap hwrite ds.length cs r
  have hds := literal?_flatMap hwrite cs.length ds r'
  rw [hbody, Nat.add_comm ds.length, hds] at hcs
  cases hcs
  exact ⟨rfl, rfl⟩

/-- Two texts that start with a literal agree only in the literal and in
what follows it. -/
theorem plain_append_inj {cs ds r r' : List Char}
    (h : plain cs ++ r = plain ds ++ r') :
    cs = ds ∧ r = r' :=
  quoted_append_inj readsBack_plainChar h

/-- Where a text in ASCII ends can be told, whatever follows. -/
theorem ascii_append_inj {cs ds r r' : List Char}
    (h : ascii cs ++ r = ascii ds ++ r') :
    cs = ds ∧ r = r' :=
  quoted_append_inj readsBack_asciiChar h

end GitPersona.Json
