/-
The text of a double tells it apart. In each of its four shapes the text
of a decimal reads back as a decimal of the same value
(`decimal?_chars`); the shortest decimals of two doubles with one text
have one value, which rounds to both of them, so the doubles are equal
(`shortestChars_injective`).
-/
import GitPersona.Decimal.Reader
import GitPersona.Proofs.Decimal.Interval

namespace GitPersona.Decimal

-- ================================================================ digits

/-- Characters that are all digits. -/
def AllDigits (cs : List Char) : Prop :=
  ∀ c ∈ cs, c.isDigit = true

/-- A whole number is written in digits. -/
theorem allDigits_digits (n : Nat) : AllDigits (digits n) :=
  fun _ hc => Nat.isDigit_of_mem_toDigits (by decide) (by decide) hc

theorem allDigits_zeros (n : Nat) : AllDigits (List.replicate n '0') := by
  intro c hc
  rw [List.eq_of_mem_replicate hc]
  rfl

/-- Digits and digits are digits. -/
theorem AllDigits.append {cs ds : List Char} (hcs : AllDigits cs)
    (hds : AllDigits ds) :
    AllDigits (cs ++ ds) := by
  intro c hc
  rcases List.mem_append.1 hc with hc | hc
  · exact hcs c hc
  · exact hds c hc

/-- The value of digits is that of the standard library. -/
theorem digitsValue_eq (cs : List Char) :
    digitsValue cs = Nat.ofDigitChars 10 cs 0 :=
  rfl

/-- The digits of a number have its value. -/
theorem digitsValue_digits (n : Nat) : digitsValue (digits n) = n := by
  rw [digitsValue_eq, digits, Nat.ofDigitChars_ten_toDigits]

/-- Leading zeros do not change a value. -/
theorem digitsValue_zeros_append (n : Nat) (cs : List Char) :
    digitsValue (List.replicate n '0' ++ cs) = digitsValue cs := by
  rw [digitsValue_eq, digitsValue_eq, Nat.ofDigitChars_append,
    Nat.ofDigitChars_replicate_zero, Nat.mul_zero]

/-- Each trailing zero multiplies a value by ten. -/
theorem digitsValue_append_zeros (cs : List Char) (n : Nat) :
    digitsValue (cs ++ List.replicate n '0') = 10 ^ n * digitsValue cs := by
  rw [digitsValue_eq, digitsValue_eq, Nat.ofDigitChars_append,
    Nat.ofDigitChars_replicate_zero]

/-- Every number has a digit. -/
theorem digits_ne_nil (n : Nat) : digits n ≠ [] :=
  Nat.toDigits_ne_nil

-- =================================================== reading digits back

/-- What may follow digits: nothing, or something that is no digit. -/
def EndsDigits (rest : List Char) : Prop :=
  ∀ c r, rest = c :: r → c.isDigit = false

/-- Reading digits takes all of them, up to what ends them. -/
theorem takeWhile_digits {ds rest : List Char} (hds : AllDigits ds)
    (hrest : EndsDigits rest) :
    (ds ++ rest).takeWhile Char.isDigit = ds := by
  rw [List.takeWhile_append_of_pos hds]
  cases rest with
  | nil => rw [List.takeWhile_nil, List.append_nil]
  | cons c r =>
      rw [List.takeWhile_cons_of_neg
        (by rw [hrest c r rfl]; exact Bool.false_ne_true), List.append_nil]

/-- Reading digits leaves what ends them. -/
theorem dropWhile_digits {ds rest : List Char} (hds : AllDigits ds)
    (hrest : EndsDigits rest) :
    (ds ++ rest).dropWhile Char.isDigit = rest := by
  rw [List.dropWhile_append_of_pos hds]
  cases rest with
  | nil => rfl
  | cons c r => rw [List.dropWhile_cons_of_neg
      (by rw [hrest c r rfl]; exact Bool.false_ne_true)]

/-- A decimal with a point is read as its digits, the exponent less the digits
after the point. -/
theorem decimal?_point {whole part rest : List Char} (hwhole : AllDigits whole)
    (hpart : AllDigits part) (hrest : EndsDigits rest) (hne : whole ≠ []) :
    decimal? (whole ++ '.' :: (part ++ rest))
      = (exponent? rest).map fun power : Int =>
        (digitsValue (whole ++ part), power - part.length) := by
  have hpoint : EndsDigits ('.' :: (part ++ rest)) := by
    intro c r h
    obtain ⟨rfl, -⟩ := List.cons.inj h
    rfl
  have hruns : digitRuns (whole ++ '.' :: (part ++ rest))
      = (whole, part, rest) := by
    unfold digitRuns
    rw [dropWhile_digits hwhole hpoint, takeWhile_digits hwhole hpoint]
    simp only
    rw [takeWhile_digits hpart hrest, dropWhile_digits hpart hrest]
  have hempty : whole.isEmpty = false := List.isEmpty_eq_false_iff.2 hne
  simp only [decimal?, hruns, hempty, Bool.false_and, Bool.false_eq_true,
    if_false]

/-- A decimal without a point is read as its digits and the exponent. -/
theorem decimal?_whole {whole rest : List Char} (hwhole : AllDigits whole)
    (hrest : EndsDigits rest) (hpoint : ∀ r, rest ≠ '.' :: r)
    (hne : whole ≠ []) :
    decimal? (whole ++ rest)
      = (exponent? rest).map fun power :
        Int => (digitsValue whole, power) := by
  have hruns : digitRuns (whole ++ rest) = (whole, [], rest) := by
    unfold digitRuns
    rw [dropWhile_digits hwhole hrest, takeWhile_digits hwhole hrest]
    split
    · next r => exact absurd rfl (hpoint r)
    · rfl
  have hempty : whole.isEmpty = false := List.isEmpty_eq_false_iff.2 hne
  simp only [decimal?, hruns, hempty, Bool.false_and, Bool.false_eq_true,
    if_false, List.append_nil, List.length_nil, Int.natCast_zero, Int.sub_zero]

/-- With zeros in front, digits are digits. -/
theorem allDigits_padZeros (width n : Nat) :
    AllDigits (padZeros width (digits n)) :=
  (allDigits_zeros _).append (allDigits_digits n)

/-- Zeros in front of digits do not change their value. -/
theorem digitsValue_padZeros (width n : Nat) :
    digitsValue (padZeros width (digits n)) = n := by
  rw [padZeros, digitsValue_zeros_append, digitsValue_digits]

/-- An exponent is read with its sign. -/
theorem exponent?_signed (negative : Bool) {mark : Char} {ds : List Char}
    (hds : AllDigits ds)
    (hne : ds ≠ []) (hmark : exponentParts (mark :: ds) = (negative, ds)) :
    exponent? ('e' :: mark :: ds)
      = some (if negative then -(digitsValue ds : Int)
        else digitsValue ds) := by
  have hempty : ds.isEmpty = false := List.isEmpty_eq_false_iff.2 hne
  have hall : ds.all Char.isDigit = true := List.all_eq_true.2 hds
  simp only [exponent?, hmark, hempty, hall, beq_self_eq_true, Bool.true_or,
    Bool.not_false, Bool.and_self, if_true]

/-- A written exponent is read as that exponent. -/
theorem exponent?_written (i : Int) :
    exponent? ('e' :: (if i < 0 then '-' else '+')
      :: padZeros 2 (digits i.natAbs)) = some i := by
  have hall := allDigits_padZeros 2 i.natAbs
  have hne : padZeros 2 (digits i.natAbs) ≠ [] := fun h =>
    digits_ne_nil _ (List.append_eq_nil_iff.1 h).2
  by_cases hi : i < 0
  · rw [if_pos hi, exponent?_signed true hall hne rfl, digitsValue_padZeros]
    simp only [if_true]
    congr 1
    omega
  · rw [if_neg hi, exponent?_signed false hall hne rfl, digitsValue_padZeros]
    simp only [Bool.false_eq_true, if_false]
    congr 1
    omega

-- ================================================================ shapes

variable {s : Scientific}

/-- The decimal exponent of the first digit of a decimal, plus one. -/
def Scientific.point (s : Scientific) : Int :=
  (digits s.significand).length + s.place

/-- The mark of an exponent ends digits. -/
theorem endsDigits_exponent (r : List Char) : EndsDigits ('e' :: r) := by
  intro c t h
  obtain ⟨rfl, -⟩ := List.cons.inj h
  rfl

/-- The scientific shape, with a point when there are several digits. -/
theorem decimal?_scientific {d : Char} {r : List Char}
    (hds : digits s.significand = d :: r) :
    decimal? ((match digits s.significand with
        | [d] => [d]
        | d :: r => d :: '.' :: r
        | [] => [])
      ++ 'e' :: (if s.point - 1 < 0 then '-' else '+')
        :: padZeros 2 (digits (s.point - 1).natAbs))
      = some (s.significand, s.place) := by
  have hall := allDigits_digits s.significand
  have hvalue := digitsValue_digits s.significand
  have hpoint : s.point = (digits s.significand).length + s.place := rfl
  rw [hds] at hall hvalue hpoint ⊢
  cases r with
  | nil =>
      show decimal? ([d] ++ 'e' :: _) = _
      rw [decimal?_whole hall (endsDigits_exponent _) (by simp) (by simp),
        exponent?_written, Option.map_some, hvalue, hpoint,
        List.length_singleton]
      congr 2
      omega
  | cons d' r =>
      show decimal? ([d] ++ '.' :: ((d' :: r) ++ 'e' :: _)) = _
      rw [decimal?_point
        (fun c hc => hall c (by simpa using Or.inl (List.mem_singleton.1 hc)))
        (fun c hc => hall c (List.mem_cons_of_mem _ hc))
        (endsDigits_exponent _) (by simp), exponent?_written, Option.map_some,
        List.singleton_append, hvalue, hpoint, List.length_cons (a := d)]
      congr 2
      omega

/-- The end of a text ends digits. -/
theorem endsDigits_nil : EndsDigits [] := by
  intro c r h
  cases h

/-- The shape below one: zeros after the point, then the digits. -/
theorem decimal?_small (h : s.point ≤ 0) :
    decimal? ('0' :: '.' :: padZeros
      ((-s.point).toNat + (digits s.significand).length)
        (digits s.significand))
      = some (s.significand, s.place) := by
  have hpart := allDigits_padZeros
    ((-s.point).toNat + (digits s.significand).length) s.significand
  have hread := decimal?_point (allDigits_zeros 1) hpart endsDigits_nil
    (by simp)
  rw [List.append_nil, digitsValue_zeros_append, digitsValue_padZeros] at hread
  rw [← List.singleton_append, ← List.replicate_one, hread, exponent?,
    Option.map_some, padZeros, List.length_append, List.length_replicate]
  have hpoint : s.point = (digits s.significand).length + s.place := rfl
  congr 2
  omega

/-- The shape of an integer: the digits, zeros up to the point, and a
zero after it. -/
theorem decimal?_integer (h : (digits s.significand).length ≤ s.point) :
    ∃ d, decimal? (digits s.significand
          ++ List.replicate (s.point.toNat - (digits s.significand).length) '0'
            ++ ['.', '0'])
        = some d ∧ (d.1 : ℚ) * 10 ^ d.2 = s.value := by
  have hwhole := (allDigits_digits s.significand).append
    (allDigits_zeros (s.point.toNat - (digits s.significand).length))
  have hread := decimal?_point hwhole (allDigits_zeros 1) endsDigits_nil
    fun hnil => digits_ne_nil _ (List.append_eq_nil_iff.1 hnil).1
  rw [List.append_nil, digitsValue_append_zeros, digitsValue_append_zeros,
    digitsValue_digits]
    at hread
  refine ⟨_, hread, ?_⟩
  have hplace : ((s.point.toNat - (digits s.significand).length : Nat) : Int)
      = s.place := by
    have hpoint : s.point = (digits s.significand).length + s.place := rfl
    omega
  rw [Scientific.value, ← hplace, zpow_natCast]
  generalize s.point.toNat - (digits s.significand).length = zeros
  show ((10 ^ 1 * (10 ^ zeros * s.significand) : Nat) : ℚ) * 10 ^ (-1 : Int)
    = s.significand * 10 ^ zeros
  push_cast
  rw [zpow_neg_one]
  ring

/-- The shape with the point among the digits. -/
theorem decimal?_mixed (hlow : 0 < s.point)
    (hhigh : s.point < (digits s.significand).length) :
    decimal? ((digits s.significand).take s.point.toNat
        ++ '.' :: (digits s.significand).drop s.point.toNat)
      = some (s.significand, s.place) := by
  have hwhole : AllDigits ((digits s.significand).take s.point.toNat) :=
    fun c hc => allDigits_digits _ c (List.mem_of_mem_take hc)
  have hpart : AllDigits ((digits s.significand).drop s.point.toNat) :=
    fun c hc => allDigits_digits _ c (List.mem_of_mem_drop hc)
  have hne : (digits s.significand).take s.point.toNat ≠ [] := by
    intro hnil
    have hlen := congrArg List.length hnil
    rw [List.length_take, List.length_nil] at hlen
    omega
  have hread := decimal?_point hwhole hpart endsDigits_nil hne
  rw [List.append_nil, List.take_append_drop, digitsValue_digits] at hread
  rw [hread, exponent?, Option.map_some, List.length_drop]
  have hpoint : s.point = (digits s.significand).length + s.place := rfl
  congr 2
  omega

/-- The text of a decimal reads back as a decimal of the same value. -/
theorem decimal?_chars (s : Scientific) :
    ∃ d, decimal? s.chars = some d ∧ (d.1 : ℚ) * 10 ^ d.2 = s.value := by
  obtain ⟨d, r, hds⟩ :=
    List.exists_cons_of_ne_nil (digits_ne_nil s.significand)
  have hchars : s.chars
      = if s.point < -3 || 16 < s.point then
          (match digits s.significand with
            | [d] => [d]
            | d :: r => d :: '.' :: r
            | [] => [])
          ++ 'e' :: (if s.point - 1 < 0 then '-' else '+')
            :: padZeros 2 (digits (s.point - 1).natAbs)
        else if s.point ≤ 0 then
          '0' :: '.' :: padZeros
            ((-s.point).toNat + (digits s.significand).length)
            (digits s.significand)
        else if (digits s.significand).length ≤ s.point.toNat then
          digits s.significand
            ++ List.replicate (s.point.toNat - (digits s.significand).length)
              '0' ++ ['.', '0']
        else (digits s.significand).take s.point.toNat
          ++ '.' :: (digits s.significand).drop s.point.toNat := rfl
  rw [hchars]
  split
  · exact ⟨_, decimal?_scientific hds, rfl⟩
  · split
    · next hsmall => exact ⟨_, decimal?_small hsmall, rfl⟩
    · split
      · next hinteger => exact decimal?_integer (by omega)
      · exact ⟨_, decimal?_mixed (by omega) (by omega), rfl⟩

-- =============================================================== doubles

/-- The sign that the text of a value is written with. -/
def Binary.isNegative : Binary → Bool
  | .undefined => false
  | .infinite negative => negative
  | .finite negative _ _ => negative

/-- The text of a value without its sign. -/
def Binary.unsignedChars : Binary → List Char
  | .undefined => ['n', 'a', 'n']
  | .infinite _ => ['i', 'n', 'f']
  | .finite _ mantissa exponent =>
    if mantissa = 0 then ['0', '.', '0']
      else (shortest mantissa exponent).chars

/-- A double is written as its sign and what it is without. -/
theorem shortestChars_eq (x : Float) :
    shortestChars x = if (Binary.ofFloat x).isNegative
      then '-' :: (Binary.ofFloat x).unsignedChars
      else (Binary.ofFloat x).unsignedChars := by
  unfold shortestChars
  cases Binary.ofFloat x <;> rfl

/-- The text of a finite value reads back as a decimal that rounds to it. -/
theorem decimal?_unsignedChars (negative : Bool) {m : Nat} {e : Int}
    (h : Canonical m e) :
    ∃ d, decimal? (Binary.finite negative m e).unsignedChars = some d
      ∧ RoundsTo m e ((d.1 : ℚ) * 10 ^ d.2) := by
  rw [Binary.unsignedChars]
  by_cases hm : m = 0
  · subst hm
    have he : e = -1074 := by
      have hfull := h.full
      omega
    subst he
    refine ⟨(0, -1), by rw [if_pos rfl]; rfl, ?_⟩
    rw [Nat.cast_zero, zero_mul]
    refine ⟨?_, ?_, by omega⟩
    · rw [lowEnd, lowQuarters]
      norm_num
    · rw [highEnd]
      positivity
  · obtain ⟨d, hread, hvalue⟩ := decimal?_chars (shortest m e)
    simp only [hm, if_false]
    refine ⟨d, hread, ?_⟩
    rw [hvalue]
    exact shortest_roundsTo (Nat.pos_of_ne_zero hm) h.least

/-- A minus sign starts no decimal without a sign. -/
theorem decimal?_minus (cs : List Char) : decimal? ('-' :: cs) = none :=
  rfl

/-- No text without a sign starts with one. -/
theorem unsignedChars_ne_minus (x : Float) (cs : List Char) :
    (Binary.ofFloat x).unsignedChars ≠ '-' :: cs := by
  intro h
  cases hx : Binary.ofFloat x with
  | undefined =>
      rw [hx] at h
      exact absurd (List.cons.inj h).1 (by decide)
  | infinite negative =>
      rw [hx] at h
      exact absurd (List.cons.inj h).1 (by decide)
  | finite negative m e =>
      obtain ⟨d, hread, -⟩ :=
        decimal?_unsignedChars negative (canonical_of_ofFloat hx)
      rw [hx] at h
      rw [h, decimal?_minus] at hread
      cases hread

/-- Only finite values are written so that they can be read. -/
theorem isSome_decimal?_unsignedChars (x : Float) :
    (decimal? (Binary.ofFloat x).unsignedChars).isSome = true
      ↔ ∃ negative m e, Binary.ofFloat x = .finite negative m e := by
  cases hx : Binary.ofFloat x with
  | undefined => simp [Binary.unsignedChars,
      show decimal? ['n', 'a', 'n'] = none from rfl]
  | infinite negative =>
      simp [Binary.unsignedChars, show decimal? ['i', 'n', 'f'] = none
        from rfl]
  | finite negative m e =>
      obtain ⟨d, hread, -⟩ :=
        decimal?_unsignedChars negative (canonical_of_ofFloat hx)
      rw [hread]
      simp

/-- Values with one sign and one text are equal. -/
theorem eq_of_unsignedChars_eq {x y : Float}
    (hsign : (Binary.ofFloat x).isNegative = (Binary.ofFloat y).isNegative)
    (h : (Binary.ofFloat x).unsignedChars = (Binary.ofFloat y).unsignedChars) :
    Binary.ofFloat x = Binary.ofFloat y := by
  have hreads := isSome_decimal?_unsignedChars x
  rw [h, isSome_decimal?_unsignedChars y] at hreads
  cases hx : Binary.ofFloat x with
  | finite negative m e =>
      obtain ⟨negative', m', e', hy⟩ := hreads.2 ⟨_, _, _, hx⟩
      obtain ⟨d, hread, hround⟩ :=
        decimal?_unsignedChars negative (canonical_of_ofFloat hx)
      obtain ⟨d', hread', hround'⟩ :=
        decimal?_unsignedChars negative' (canonical_of_ofFloat hy)
      rw [hx, hy] at h hsign
      rw [h, hread'] at hread
      cases hread
      -- one decimal rounds to both, so they are one double
      obtain ⟨rfl, rfl⟩ :=
        hround.unique hround' (canonical_of_ofFloat hx)
          (canonical_of_ofFloat hy)
      rw [hy, show negative = negative' from hsign]
  | infinite negative =>
      cases hy : Binary.ofFloat y with
      | finite negative' m e =>
          obtain ⟨_, _, _, hx'⟩ := hreads.1 ⟨_, _, _, hy⟩
          cases hx.symm.trans hx'
      | infinite negative' =>
          rw [hx, hy] at hsign
          rw [show negative = negative' from hsign]
      | undefined =>
          rw [hx, hy] at h
          exact absurd (List.cons.inj h).1 (by decide)
  | undefined =>
      cases hy : Binary.ofFloat y with
      | finite negative' m e =>
          obtain ⟨_, _, _, hx'⟩ := hreads.1 ⟨_, _, _, hy⟩
          cases hx.symm.trans hx'
      | infinite negative' =>
          rw [hx, hy] at h
          exact absurd (List.cons.inj h).1 (by decide)
      | undefined => rfl

/-- Doubles with one text are equal. -/
theorem shortestChars_injective {x y : Float}
    (h : shortestChars x = shortestChars y) : x = y := by
  rw [shortestChars_eq, shortestChars_eq] at h
  apply eq_of_ofFloat_eq
  cases hx : (Binary.ofFloat x).isNegative with
  | false =>
      cases hy : (Binary.ofFloat y).isNegative with
      | false =>
          rw [hx, hy] at h
          exact eq_of_unsignedChars_eq (hx.trans hy.symm) h
      | true =>
          rw [hx, hy] at h
          exact absurd h (unsignedChars_ne_minus x _)
  | true =>
      cases hy : (Binary.ofFloat y).isNegative with
      | false =>
          rw [hx, hy] at h
          exact absurd h.symm (unsignedChars_ne_minus y _)
      | true =>
          rw [hx, hy] at h
          exact eq_of_unsignedChars_eq (hx.trans hy.symm) (List.cons.inj h).2

end GitPersona.Decimal
