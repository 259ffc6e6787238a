/-
The compact form of valid detection settings tells any two of them
apart: the numbers among its values are written in characters that no
object needs, so each value is delimited, and each value is determined
by its text. For the finite doubles that is
`Decimal.shortestChars_injective`; only one double that is not below
zero is not finite, so `null` cannot stand for two lifetimes.
-/
import GitPersona.Settings.Basic
import GitPersona.Proofs.Profile.Compact
import GitPersona.Proofs.Decimal.Text
import GitPersona.Proofs.Number.Order

namespace GitPersona.DetectionSettings

open Decimal (shortestChars intChars digits AllDigits)
open Json (Delimited)
open Profile (compactBool compactObject)

-- ============================================================== characters

/-- What numbers are written with, besides digits. -/
def isNumberMark (c : Char) : Bool :=
  ['.', 'e', '+', '-', 'n', 'a', 'i', 'f'].contains c

/-- Every character is one that numbers are written with. -/
def Numeric (cs : List Char) : Prop :=
  ∀ c ∈ cs, c.isDigit = true ∨ isNumberMark c = true

theorem Numeric.nil : Numeric [] := by
  intro c hc
  cases hc

theorem Numeric.cons {c : Char} {cs : List Char} (hc : isNumberMark c = true)
    (hcs : Numeric cs) :
    Numeric (c :: cs) := by
  intro d hd
  rcases List.mem_cons.1 hd with rfl | hd
  · exact Or.inr hc
  · exact hcs d hd

/-- Marks of numbers and marks of numbers are marks of numbers. -/
theorem Numeric.append {cs ds : List Char} (hcs : Numeric cs)
    (hds : Numeric ds) :
    Numeric (cs ++ ds) := by
  intro c hc
  rcases List.mem_append.1 hc with hc | hc
  · exact hcs c hc
  · exact hds c hc

/-- Digits are marks of numbers. -/
theorem Numeric.of_allDigits {cs : List Char} (h : AllDigits cs) :
    Numeric cs :=
  fun c hc => Or.inl (h c hc)

/-- No number holds what can follow it in an object. -/
theorem Numeric.notMem {cs : List Char} (h : Numeric cs) :
    ',' ∉ cs ∧ '}' ∉ cs := by
  refine ⟨fun hmem => ?_, fun hmem => ?_⟩
  · exact absurd (h _ hmem) (by decide)
  · exact absurd (h _ hmem) (by decide)

-- ================================================================ numbers

/-- A natural number is written in marks of numbers. -/
theorem numeric_digits (n : Nat) : Numeric (digits n) :=
  .of_allDigits (Decimal.allDigits_digits n)

theorem numeric_zeros (n : Nat) : Numeric (List.replicate n '0') :=
  .of_allDigits (Decimal.allDigits_zeros n)

/-- A whole number is written in marks of numbers. -/
theorem numeric_intChars (i : Int) : Numeric (intChars i) := by
  unfold intChars
  split
  · exact .cons rfl (numeric_digits _)
  · exact numeric_digits _

/-- Different whole numbers are written differently. -/
theorem intChars_injective {i j : Int}
    (h : intChars i = intChars j) : i = j := by
  have hminus : ∀ n m : Nat, digits n ≠ '-' :: digits m := by
    intro n m heq
    have hdigit := Decimal.allDigits_digits n '-' (heq ▸ List.mem_cons_self)
    exact absurd hdigit (by decide)
  have hdigits : ∀ {n m : Nat}, digits n = digits m → n = m := by
    intro n m heq
    rw [← Decimal.digitsValue_digits n, heq, Decimal.digitsValue_digits]
  unfold intChars at h
  split at h
  · split at h
    · have habs := hdigits (List.cons.inj h).2
      omega
    · exact absurd h.symm (hminus _ _)
  · split at h
    · exact absurd h (hminus _ _)
    · have habs := hdigits h
      omega

/-- A decimal is written in marks of numbers. -/
theorem numeric_chars (s : Decimal.Scientific) : Numeric s.chars := by
  have hall := numeric_digits s.significand
  have hpad : ∀ width n, Numeric (Decimal.padZeros width (digits n)) :=
    fun width n => .of_allDigits (Decimal.allDigits_padZeros width n)
  unfold Decimal.Scientific.chars
  simp only
  split
  · refine Numeric.append ?_ (.cons rfl (.cons ?_ (hpad _ _)))
    · split
      · next d hds => exact hds ▸ hall
      · next d r _ hds =>
        rw [hds] at hall
        have htail : Numeric r :=
          fun c hc => hall c (List.mem_cons_of_mem _ hc)
        intro c hc
        rcases List.mem_cons.1 hc with rfl | hc
        · exact hall c List.mem_cons_self
        · exact Numeric.cons rfl htail c hc
      · exact .nil
    · split <;> rfl
  · split
    · intro c hc
      rcases List.mem_cons.1 hc with rfl | hc
      · exact Or.inl rfl
      · exact Numeric.cons rfl (hpad _ _) c hc
    · split
      · refine (hall.append (numeric_zeros _)).append ?_
        exact .cons rfl (numeric_zeros 1)
      · refine Numeric.append (fun c hc => hall c (List.mem_of_mem_take hc)) ?_
        exact .cons rfl fun c hc => hall c (List.mem_of_mem_drop hc)

/-- A double is written in marks of numbers. -/
theorem numeric_shortestChars (x : Float) : Numeric (shortestChars x) := by
  have hunsigned : Numeric (Decimal.Binary.ofFloat x).unsignedChars := by
    cases Decimal.Binary.ofFloat x with
    | undefined => exact .cons rfl (.cons rfl (.cons rfl .nil))
    | infinite negative => exact .cons rfl (.cons rfl (.cons rfl .nil))
    | finite negative m e =>
        rw [Decimal.Binary.unsignedChars]
        split
        · exact Numeric.append (numeric_zeros 1) (.cons rfl (numeric_zeros 1))
        · exact numeric_chars _
  rw [Decimal.shortestChars_eq]
  split
  · exact .cons rfl hunsigned
  · exact hunsigned

/-- What is not finite is no number or one of the infinities. -/
theorem eq_of_not_finite {x : Float}
    (h : ∀ negative m e, Decimal.Binary.ofFloat x ≠ .finite negative m e) :
    x = 0.0 / 0.0 ∨ x = -1.0 / 0.0 ∨ x = 1.0 / 0.0 := by
  cases hx : Decimal.Binary.ofFloat x with
  | undefined =>
      refine Or.inl (Decimal.eq_of_ofFloat_eq (hx.trans ?_))
      decide
  | infinite negative =>
      refine Or.inr ?_
      cases negative with
      | true =>
          refine Or.inl (Decimal.eq_of_ofFloat_eq (hx.trans ?_))
          decide
      | false =>
          refine Or.inr (Decimal.eq_of_ofFloat_eq (hx.trans ?_))
          decide
  | finite negative m e => exact absurd hx (h negative m e)

/-- The text of a double that is not below zero: its shortest one, or `null`
for infinity. -/
theorem compactFloat_cases {x : Float} (hx : 0.0 ≤ x) :
    compactFloat x = shortestChars x ∨ x = 1.0 / 0.0 := by
  unfold compactFloat
  split
  · exact Or.inl rfl
  · next hnot =>
    rcases eq_of_not_finite hnot with rfl | rfl | hinf
    · exact absurd hx (by decide)
    · exact absurd hx (by decide)
    · exact Or.inr hinf

/-- Different doubles that are not negative are written differently. -/
theorem compactFloat_injective {x y : Float} (hx : 0.0 ≤ x) (hy : 0.0 ≤ y)
    (h : compactFloat x = compactFloat y) : x = y := by
  have hinf : ∀ z, compactFloat z = shortestChars z →
      compactFloat z ≠ compactFloat (1.0 / 0.0) := by
    intro z hz heq
    have hnumeric := numeric_shortestChars z
    rw [← hz, heq] at hnumeric
    exact absurd (hnumeric 'u' (by decide)) (by decide)
  rcases compactFloat_cases hx with hx | rfl
  · rcases compactFloat_cases hy with hy | rfl
    · rw [hx, hy] at h
      exact Decimal.shortestChars_injective h
    · exact absurd h (hinf x hx)
  · rcases compactFloat_cases hy with hy | rfl
    · exact absurd h.symm (hinf y hy)
    · rfl

/-- Before the end of an object, doubles written alike are followed alike. -/
theorem delimited_compactFloat (x y : Float) :
    Delimited '}' (compactFloat x) (compactFloat y) := by
  have hnotMem : ∀ z, ',' ∉ compactFloat z ∧ '}' ∉ compactFloat z := by
    intro z
    unfold compactFloat
    split
    · exact (numeric_shortestChars z).notMem
    · decide
  exact Json.delimited_of_notMem (hnotMem x) (hnotMem y)

/-- Before the end of an object, whole numbers written alike are
followed alike. -/
theorem delimited_intChars (i j : Int) :
    Delimited '}' (intChars i) (intChars j) :=
  Json.delimited_of_notMem (numeric_intChars i).notMem
    (numeric_intChars j).notMem

-- =============================================================== settings

/-- Field by field, what two settings of detection have written
is delimited. -/
theorem delimited_compactFields (s t : DetectionSettings) :
    ∀ p ∈ s.compactFields.zip t.compactFields, Delimited '}' p.1.2 p.2.2 := by
  simp only [compactFields, List.zip_cons_cons, List.zip_nil_left,
    List.forall_mem_cons, List.not_mem_nil, false_implies, implies_true,
    and_true, delimited_compactFloat, delimited_intChars,
    Profile.delimited_compactBool]

/-- Valid settings with one compact form are equal. -/
theorem compact_injective {s t : DetectionSettings} (hs : s.Valid)
    (ht : t.Valid)
    (h : s.compact = t.compact) : s = t := by
  obtain ⟨hfields, -⟩ :=
    Profile.compactObject_append_inj (r := []) (delimited_compactFields s t)
    (congrArg (· ++ []) h)
  simp only [compactFields, List.cons.injEq, Prod.mk.injEq, true_and, and_true]
    at hfields
  obtain ⟨hfloor, hurl, hdir, hinclude, hhost, hgit, hcache, hlife,
    hcapacity⟩ := hfields
  have hlife := compactFloat_injective (Number.le_of_lt hs.lifetime)
    (Number.le_of_lt ht.lifetime)
    hlife
  have hfloor := compactFloat_injective hs.floor ht.floor hfloor
  cases s
  cases t
  simp only [DetectionSettings.mk.injEq]
  exact ⟨hfloor, Profile.compactBool_injective hurl,
    Profile.compactBool_injective hdir,
    Profile.compactBool_injective hinclude,
    Profile.compactBool_injective hhost,
    Profile.compactBool_injective hgit, Profile.compactBool_injective hcache,
    hlife,
    intChars_injective hcapacity⟩

end GitPersona.DetectionSettings
