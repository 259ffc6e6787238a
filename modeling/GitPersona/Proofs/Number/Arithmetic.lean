/-
Bounds on the arithmetic of doubles. Products and differences are
rounded from the exact result (`rounds_mul`, `rounds_sub`), and so is a
double made from a natural that is large, while a smaller one is
converted and multiplied by one (`isRounding_ofNat_of_le`,
`ofNat_eq_mul`). A greater value is not rounded to less, infinities
included (`IsRounding.mono`): results are in order as the exact ones
are, a bound that is a double and holds of the exact result holds of the
rounded one, and operands may then be replaced by bounds on them
(`le_mul`, `sub_le`, `le_ofNat`).

A double is read through its exact value (`Decimal.Binary.ofFloat`),
which `unpack_eq` ties to the form that operations work on.
-/
import GitPersona.Proofs.Number.Order
import GitPersona.Proofs.Number.Rounding

namespace GitPersona.Number

open Float.Model (UnpackedFloat Format)
open Float.Model.UnpackedFloat
  (Sign packComponents unpackExponent unpackMantissa unpackSign)
open Decimal (Binary Canonical signBits)

variable {x y : Float} {s : Sign} {negative : Bool} {m : Nat} {e : Int}

-- ================================================================= bits

/-- The sign of a value. -/
def signOf (negative : Bool) : Sign :=
  if negative then .negative else .positive

/-- Whether a sign is the negative one. -/
def isNegative : Sign → Bool
  | .negative => true
  | .positive => false

/-- The bits of a double are its sign, its exponent field and its fraction,
side by side. -/
theorem toNat_packComponents (field : BitVec 11) (fraction : BitVec 52) :
    (packComponents .binary64 s field fraction).toNat
      = signBits (isNegative s) + field.toNat * 2 ^ 52 + fraction.toNat := by
  have hsign : s.toBitVec.toNat = if isNegative s then 1 else 0 := by
    cases s <;> rfl
  unfold packComponents signBits
  rw [BitVec.toNat_append, BitVec.toNat_append,
    ← Nat.shiftLeft_add_eq_or_of_lt fraction.isLt,
    ← Nat.shiftLeft_add_eq_or_of_lt field.isLt,
    hsign, Nat.shiftLeft_eq, Nat.shiftLeft_eq]
  cases isNegative s
  · simp
  · simp only [if_true]
    ring

/-- What the parts of the bits of a double spell. -/
theorem ofBits_parts {field fraction : Nat} (hfield : field < 2 ^ 11)
    (hfraction : fraction < 2 ^ 52) :
    Binary.ofBits (signBits negative + field * 2 ^ 52 + fraction)
      = if field = 2047 then if fraction = 0 then .infinite negative
        else .undefined
        else if field = 0 then .finite negative fraction (-1074)
        else .finite negative (2 ^ 52 + fraction) (field - 1075) := by
  obtain ⟨n, hn⟩ : ∃ n, n = signBits negative + field * 2 ^ 52 + fraction :=
    ⟨_, rfl⟩
  have hsign : decide (2 ^ 63 ≤ n) = negative := by
    rw [hn, signBits]
    cases negative
    · simp only [Bool.false_eq_true, if_false, decide_eq_false_iff_not]
      omega
    · simp only [if_true, decide_eq_true_eq]
      omega
  have hhigh : n / 2 ^ 52 % 2 ^ 11 = field := by
    rw [hn, signBits]
    split
    · omega
    · omega
  have hlow : n % 2 ^ 52 = fraction := by
    rw [hn, signBits]
    split
    · omega
    · omega
  rw [← hn, Decimal.ofBits_eq, hsign, hhigh, hlow]

/-- Bits are put together from what they are taken apart into. -/
theorem toNat_eq_parts (b : BitVec 64) : b.toNat
    = signBits (isNegative (Sign.ofBitVec (@unpackSign .binary64 b)))
      + (@unpackExponent .binary64 b).toNat * 2 ^ 52
        + (@unpackMantissa .binary64 b).toNat := by
  have hparts :=
    @UnpackedFloat.packComponents_unpackSign_unpackExponent_unpackMantissa
    .binary64 b
  rw [← toNat_packComponents, hparts]

/-- The leading one of a significand that has the full width. -/
theorem toNat_leadingOne (fraction : BitVec 52) :
    (1#1 ++ fraction).toNat = 2 ^ 52 + fraction.toNat := by
  rw [BitVec.toNat_append, ← Nat.shiftLeft_add_eq_or_of_lt fraction.isLt,
    Nat.shiftLeft_eq]
  rfl

/-- The form that operations work on is the one that the bits spell. -/
theorem unpack_eq (x : Float) : x.toModel.unpack
    = match Binary.ofFloat x with
      | .undefined => .notANumber
      | .infinite negative => .infinity (signOf negative)
      | .finite negative m e => ofParts (signOf negative) m e := by
  obtain ⟨b, hb⟩ : ∃ b : BitVec 64, b = x.toBits.toBitVec := ⟨_, rfl⟩
  have hread : Binary.ofFloat x = Binary.ofBits b.toNat := hb ▸ rfl
  have hunpack : x.toModel.unpack = UnpackedFloat.unpack .binary64 b :=
    hb ▸ rfl
  have hsign : ∀ s, signOf (isNegative s) = s := by
    intro s
    cases s <;> rfl
  rw [hread, hunpack, toNat_eq_parts b,
    ofBits_parts (@unpackExponent .binary64 b).isLt
      (@unpackMantissa .binary64 b).isLt]
  unfold UnpackedFloat.unpack
  dsimp only
  obtain ⟨field, hfieldEq⟩ :
      ∃ v : BitVec 11, v = @unpackExponent .binary64 b := ⟨_, rfl⟩
  obtain ⟨fraction, hfractionEq⟩ :
      ∃ v : BitVec 52, v = @unpackMantissa .binary64 b := ⟨_, rfl⟩
  simp only [← hfieldEq, ← hfractionEq]
  have htop : field = -1#_ ↔ field.toNat = 2047 := BitVec.toNat_inj.symm
  have hbottom : field = 0#_ ↔ field.toNat = 0 := BitVec.toNat_inj.symm
  have hnone : fraction = 0#_ ↔ fraction.toNat = 0 := BitVec.toNat_inj.symm
  have hbias : ((Format.binary64.exponentBias : Nat) : Int)
      + ((Format.binary64.mantissaBitsWithoutImplicit : Nat) : Int) = 1075 :=
    rfl
  by_cases hfield : field.toNat = 2047
  · rw [if_pos (htop.2 hfield), if_pos hfield]
    by_cases hfraction : fraction.toNat = 0
    · rw [if_pos (hnone.2 hfraction), if_pos hfraction]
      simp only [hsign]
    · rw [if_neg (mt hnone.1 hfraction), if_neg hfraction]
  · rw [if_neg (mt htop.1 hfield), if_neg hfield]
    by_cases hzero : field.toNat = 0
    · rw [if_pos (hbottom.2 hzero), if_pos hzero]
      simp only [hsign, ofParts]
      by_cases hfraction : fraction.toNat = 0
      · rw [dif_pos (hnone.2 hfraction), dif_pos hfraction]
      · rw [dif_neg (mt hnone.1 hfraction), dif_neg hfraction]
        congr 1
        rw [hbias, hzero]
        rfl
    · rw [if_neg (mt hbottom.1 hzero), if_neg hzero]
      simp only [hsign, ofParts, toNat_leadingOne, hbias]
      rw [dif_neg (by omega)]

/-- The exact value of what an operation gives. -/
theorem ofFloat_pack (u : UnpackedFloat) : Binary.ofFloat (.ofModel (.pack u))
    = Binary.ofBits (UnpackedFloat.pack .binary64 u).toNat :=
  rfl

/-- An infinite double is read as infinite. -/
theorem ofFloat_infinity (s : Sign) :
    Binary.ofFloat (.ofModel (.pack (.infinity s)))
      = .infinite (isNegative s) := by
  cases s <;> rfl

theorem biased_eq (e : Int) : (e + ((Format.binary64.exponentBias : Nat) : Int)
    + ((Format.binary64.mantissaBitsWithoutImplicit : Nat) : Int)).toNat
      = (e + 1075).toNat := by
  show (e + ((1023 : Nat) : Int) + ((52 : Nat) : Int)).toNat = _
  omega

/-- A value in canonical form, of an exponent that doubles have, is kept. -/
theorem ofFloat_ofParts (h : Canonical m e) (he : e ≤ 971) :
    Binary.ofFloat (.ofModel (.pack (ofParts s m e)))
      = .finite (isNegative s) m e := by
  have hlt := h.lt
  have hleast := h.least
  rw [ofFloat_pack]
  by_cases hzero : m = 0
  · subst hzero
    have he' : e = -1074 := h.full.resolve_right (by norm_num)
    show Binary.ofBits (packComponents .binary64 s 0#11 0#52).toNat = _
    rw [toNat_packComponents, ofBits_parts (by decide) (by decide), he']
    rfl
  · rw [ofParts, dif_neg hzero, UnpackedFloat.pack]
    dsimp only
    rw [biased_eq, if_neg (by omega)]
    by_cases hsmall : m < 2 ^ 52
    · have hlog : m.log2 < 52 := (Nat.log2_lt hzero).2 hsmall
      have he' : e = -1074 := h.full.resolve_right (by omega)
      have hfraction : (BitVec.ofNat 52 m).toNat = m := Nat.mod_eq_of_lt hsmall
      rw [if_neg (by show ¬m.log2 + 1 = 53; omega), toNat_packComponents,
        ofBits_parts (by decide) (BitVec.isLt _), hfraction, he']
      rfl
    · have hlog : m.log2 = 52 := by
        have hupper := (Nat.log2_lt hzero).2 hlt
        have hlower := (Nat.le_log2 hzero).2 (Nat.not_lt.1 hsmall)
        omega
      rw [if_pos (by show m.log2 + 1 = 53; omega), toNat_packComponents,
        ofBits_parts (BitVec.isLt _) (BitVec.isLt _), BitVec.toNat_ofNat,
        BitVec.toNat_ofNat,
        if_neg (by omega), if_neg (by omega)]
      congr 1
      · omega
      · omega

/-- A value of an exponent that is too great becomes infinite. -/
theorem ofFloat_ofParts_of_lt (h : Canonical m e) (he : 971 < e) :
    Binary.ofFloat (.ofModel (.pack (ofParts s m e)))
      = .infinite (isNegative s) := by
  have hfull := h.full.resolve_left (by omega)
  rw [ofFloat_pack, ofParts, dif_neg (by omega), UnpackedFloat.pack]
  dsimp only
  rw [biased_eq, if_pos (by omega)]
  exact ofFloat_infinity s

-- ============================================================== exact values

/-- A double has an exact value. -/
def HasValue (x : Float) (value : ℚ) : Prop :=
  ∃ negative m e, Binary.ofFloat x = .finite negative m e
    ∧ value = signed (signOf negative) (scaled m e)

/-- No finite double has an exponent above 971. -/
theorem exponent_le_of_ofFloat (h : Binary.ofFloat x = .finite negative m e) :
    e ≤ 971 := by
  unfold Binary.ofFloat at h
  rw [← UInt64.toNat_toBitVec, toNat_eq_parts,
    ofBits_parts (@unpackExponent .binary64 _).isLt
      (@unpackMantissa .binary64 _).isLt] at h
  have hfield := (@unpackExponent .binary64 x.toBits.toBitVec).isLt
  split at h
  · split at h
    · cases h
    · cases h
  · next htop =>
    change _ < 2 ^ 11 at hfield
    split at h
    · cases h
      norm_num
    · cases h
      omega

/-- The order of places is the order of values. -/
theorem place_ofParts_lt_iff {s' : Sign} {m' : Nat} {e' : Int}
    (h : Canonical m e)
    (h' : Canonical m' e') : place (ofParts s m e) < place (ofParts s' m' e')
      ↔ signed s (scaled m e) < signed s' (scaled m' e') := by
  have hlt := canonical_lt_iff h h'
  have hgt := canonical_lt_iff h' h
  have hpos := @scaled_pos_iff m e
  have hpos' := @scaled_pos_iff m' e'
  by_cases hm : m = 0
  · subst hm
    by_cases hm' : m' = 0
    · subst hm'
      cases s <;> cases s' <;> simp [ofParts, place, signed]
    · have hpositive := hpos'.2 (Nat.pos_of_ne_zero hm')
      cases s <;> cases s' <;>
        simp [ofParts, place, signed, hm', hpositive, hpositive.le]
  · have hpositive := hpos.2 (Nat.pos_of_ne_zero hm)
    by_cases hm' : m' = 0
    · subst hm'
      cases s <;> cases s' <;>
        simp [ofParts, place, signed, hm, hpositive, hpositive.le]
    · have hpositive' := hpos'.2 (Nat.pos_of_ne_zero hm')
      cases s with
      | negative =>
          cases s' with
          | negative =>
              simp [ofParts, place, signed, hm, hm', hgt, eq_comm]
          | positive =>
              have hbelow : -scaled m e < scaled m' e' := by linarith
              simp [ofParts, place, signed, hm, hm', hbelow]
      | positive =>
          cases s' with
          | negative =>
              have habove : ¬scaled m e < -scaled m' e' := by linarith
              simp [ofParts, place, signed, hm, hm', habove]
          | positive => simp [ofParts, place, signed, hm, hm', hlt]

/-- A finite double unpacks to the parts that it is read as. -/
theorem unpack_finite (h : Binary.ofFloat x = .finite negative m e) :
    x.toModel.unpack = ofParts (signOf negative) m e := by
  rw [unpack_eq, h]

/-- An infinite double unpacks to an infinity. -/
theorem unpack_infinite (h : Binary.ofFloat x = .infinite negative) :
    x.toModel.unpack = .infinity (signOf negative) := by
  rw [unpack_eq, h]

theorem place_ofParts_ne_bot : place (ofParts s m e) ≠ ⊥ := by
  unfold ofParts
  split
  · simp [place]
  · cases s <;> simp [place]

/-- A double with a value is a number. -/
theorem HasValue.isNumber {p : ℚ} (hx : HasValue x p) : IsNumber x := by
  obtain ⟨negative, m, e, h, -⟩ := hx
  rw [IsNumber, line, unpack_finite h]
  exact place_ofParts_ne_bot

/-- Doubles are in order as their values are. -/
theorem HasValue.le_iff {p q : ℚ} (hx : HasValue x p) (hy : HasValue y q) :
    x ≤ y ↔ p ≤ q := by
  rw [hx.isNumber.le_iff]
  obtain ⟨negative, m, e, h, rfl⟩ := hx
  obtain ⟨negative', m', e', h', rfl⟩ := hy
  rw [line, unpack_finite h, line, unpack_finite h', ← not_lt, ← not_lt,
    place_ofParts_lt_iff (Decimal.canonical_of_ofFloat h')
      (Decimal.canonical_of_ofFloat h)]

/-- What is made of parts stands between the infinities. -/
theorem place_ofParts_between :
    place (.infinity .negative) < place (ofParts s m e)
    ∧ place (ofParts s m e) < place (.infinity .positive) := by
  unfold ofParts
  split
  · simp [place]
  · cases s <;> simp [place]

/-- A double with a value lies between the infinities. -/
theorem HasValue.lt_infinite {p : ℚ} (hx : HasValue x p)
    (hy : Binary.ofFloat y = .infinite false) : x < y := by
  rw [hx.isNumber.lt_iff]
  obtain ⟨negative, m, e, hx, -⟩ := hx
  rw [line, line, unpack_finite hx, unpack_infinite hy]
  exact place_ofParts_between.2

/-- The negative infinity is less than any double with a value. -/
theorem HasValue.infinite_lt {p : ℚ} (hx : HasValue x p)
    (hy : Binary.ofFloat y = .infinite true) : y < x := by
  have hnumber : IsNumber y := by
    rw [IsNumber, line, unpack_infinite hy]
    simp [place, signOf]
  rw [hnumber.lt_iff]
  obtain ⟨negative, m, e, hx, -⟩ := hx
  rw [line, line, unpack_infinite hy, unpack_finite hx]
  exact place_ofParts_between.1

/-- Infinities compare by their signs. -/
theorem infinite_le_infinite {negative' : Bool}
    (hx : Binary.ofFloat x = .infinite negative)
    (hy : Binary.ofFloat y = .infinite negative')
    (h : negative = false → negative' = false) :
    x ≤ y := by
  rw [le_iff, IsNumber, line, line, unpack_infinite hx, unpack_infinite hy]
  cases negative with
  | false =>
      obtain rfl := h rfl
      simp [place, signOf]
  | true =>
      cases negative' with
      | false =>
          have hless : Place.at (-2) 0 0 < Place.at 2 0 0 := by simp
          exact ⟨by simp [place, signOf], hless.le⟩
      | true => simp [place, signOf]

-- ============================================================ rounded results

/-- A double is what a value is rounded to, which may be infinite. -/
def IsRounding (x : Float) (value : ℚ) : Prop :=
  ∃ u, x = .ofModel (.pack u) ∧ Rounds u value

/-- What has a canonical form has its value as far as doubles go, and is
infinite beyond. -/
theorem pack_cases (h : Canonical m e) (s : Sign) :
    (HasValue (.ofModel (.pack (ofParts s m e))) (signed s (scaled m e))
        ∧ scaled m e < scaled (2 ^ 53) 971)
      ∨ Binary.ofFloat (.ofModel (.pack (ofParts s m e)))
        = .infinite (isNegative s)
        ∧ scaled (2 ^ 53) 971 ≤ scaled m e := by
  rcases lt_or_ge 971 e with he | he
  · have hfull := h.full.resolve_left (by omega)
    exact Or.inr ⟨ofFloat_ofParts_of_lt h he, scaled_full_le he hfull⟩
  · refine Or.inl ⟨⟨_, _, _, ofFloat_ofParts h he, ?_⟩, ?_⟩
    · cases s <;> rfl
    · rcases he.eq_or_lt with rfl | he
      · exact scaled_lt_scaled_iff.2 h.lt
      · exact scaled_lt_of_lt he h.lt (by norm_num)

/-- A greater value is not rounded to less. -/
theorem IsRounding.mono {p q : ℚ} (hx : IsRounding x p) (hy : IsRounding y q)
    (hle : p ≤ q) :
    x ≤ y := by
  obtain ⟨_, rfl, s, m, e, amount, rfl, hcanonical, hnearest, hamount, rfl⟩ :=
    hx
  obtain ⟨_, rfl, s', m', e', amount', rfl, hcanonical', hnearest', hamount',
    rfl⟩ := hy
  have hvalues := hnearest.signed_mono hnearest' hamount hamount' hle
  obtain ⟨hlow, -⟩ := abs_le.1 (abs_signed (s := s) (scaled_nonneg m e)).le
  obtain ⟨-, hhigh⟩ := abs_le.1 (abs_signed (s := s') (scaled_nonneg m' e')).le
  have hlimit : 0 < scaled (2 ^ 53) 971 := scaled_pos_iff.2 (by norm_num)
  -- each is finite, or infinite beyond the limit; where just one of them
  -- is infinite, the order of the values leaves only one sign for it
  rcases pack_cases hcanonical s with ⟨hx, hless⟩ | ⟨hx, hbeyond⟩
  · rcases pack_cases hcanonical' s' with ⟨hy, -⟩ | ⟨hy, hbeyond⟩
    · exact (hx.le_iff hy).2 hvalues
    · cases s' with
      | positive => exact le_of_lt (hx.lt_infinite hy)
      | negative =>
          change _ ≤ -scaled m' e' at hvalues
          linarith
  · rcases pack_cases hcanonical' s' with ⟨hy, hless⟩ | ⟨hy, hbeyond'⟩
    · cases s with
      | positive =>
          change scaled m e ≤ _ at hvalues
          linarith
      | negative => exact le_of_lt (hy.infinite_lt hx)
    · refine infinite_le_infinite hx hy fun hpositive => ?_
      cases s with
      | positive =>
          cases s' with
          | positive => rfl
          | negative =>
              change scaled m e ≤ -scaled m' e' at hvalues
              linarith
      | negative => cases hpositive

/-- A double is rounded to itself. -/
theorem HasValue.isRounding {p : ℚ} (hx : HasValue x p) : IsRounding x p := by
  obtain ⟨negative, m, e, h, rfl⟩ := hx
  have hcanonical := Decimal.canonical_of_ofFloat h
  refine ⟨_, Decimal.eq_of_ofFloat_eq ?_,
    rounds_self hcanonical (signOf negative)⟩
  rw [h, ofFloat_ofParts hcanonical (exponent_le_of_ofFloat h)]
  cases negative <;> rfl

/-- A double that bounds a value from above bounds what the value
is rounded to. -/
theorem IsRounding.le_of_le {p value : ℚ} (hx : IsRounding x value)
    (hy : HasValue y p)
    (h : value ≤ p) : x ≤ y :=
  hx.mono hy.isRounding h

/-- Rounding a value does not take it below a double that it is not below. -/
theorem IsRounding.ge_of_ge {p value : ℚ} (hx : IsRounding x value)
    (hy : HasValue y p)
    (h : p ≤ value) : y ≤ x :=
  hy.isRounding.mono hx h

-- =============================================================== products

/-- Zero times something is zero, of the product of the signs. -/
theorem mul_zero_left {s' : Sign} {m' : Nat} {e' : Int} :
    UnpackedFloat.mul .binary64 (.zero s) (ofParts s' m' e')
      = .zero (s * s') := by
  unfold ofParts
  split <;> rfl

/-- Something times zero is zero, of the product of the signs. -/
theorem mul_zero_right {s' : Sign} :
    UnpackedFloat.mul .binary64 (ofParts s m e) (.zero s')
      = .zero (s * s') := by
  unfold ofParts
  split <;> rfl

/-- Scaled values multiply part by part. -/
theorem scaled_mul_scaled (m m' : Nat) (e e' : Int) :
    scaled m e * scaled m' e' = scaled (m * m') (e + e') := by
  unfold scaled
  rw [zpow_add₀ (by norm_num)]
  push_cast
  ring

/-- A product is rounded from the exact one. -/
theorem rounds_mul {m' : Nat} {e' : Int} (h : Canonical m e)
    (h' : Canonical m' e') (s s' : Sign) :
    Rounds (UnpackedFloat.mul .binary64 (ofParts s m e) (ofParts s' m' e'))
      (signed s (scaled m e) * signed s' (scaled m' e')) := by
  rw [← signed_mul]
  by_cases hm : m = 0
  · subst hm
    rw [scaled_zero, zero_mul, signed_zero, ofParts_zero, mul_zero_left]
    exact rounds_zero (s * s')
  · by_cases hm' : m' = 0
    · subst hm'
      rw [scaled_zero, mul_zero, signed_zero, ofParts_zero, mul_zero_right]
      exact rounds_zero (s * s')
    · have hpos := Nat.pos_of_ne_zero hm
      have hpos' := Nat.pos_of_ne_zero hm'
      have hfull : e + e' ≤ -1074 ∨ 2 ^ 52 ≤ m * m' := by
        rcases h.full with he | hwide
        · rcases h'.full with he' | hwide'
          · exact Or.inl (by omega)
          · exact Or.inr (hwide'.trans (Nat.le_mul_of_pos_left m' hpos))
        · exact Or.inr (hwide.trans (Nat.le_mul_of_pos_right m hpos'))
      rw [ofParts, ofParts, dif_neg hm, dif_neg hm', UnpackedFloat.mul,
        scaled_mul_scaled]
      exact rounds_roundWithAccuracy (s * s') hfull

/-- A product is rounded from the exact one. -/
theorem isRounding_mul {p q : ℚ} (hx : HasValue x p) (hy : HasValue y q) :
    IsRounding (x * y) (p * q) := by
  obtain ⟨negative, m, e, hx, rfl⟩ := hx
  obtain ⟨negative', m', e', hy, rfl⟩ := hy
  have hrounds := rounds_mul (Decimal.canonical_of_ofFloat hx)
    (Decimal.canonical_of_ofFloat hy)
    (signOf negative) (signOf negative')
  rw [← unpack_finite hx, ← unpack_finite hy] at hrounds
  exact ⟨_, rfl, hrounds⟩

-- ============================================================ differences

/-- Taking something from zero gives its opposite. -/
theorem sub_zero_left (hm : 0 < m) {s' : Sign} :
    UnpackedFloat.sub .binary64 (.zero s) (ofParts s' m e)
      = ofParts (-s') m e := by
  rw [ofParts, ofParts, dif_neg hm.ne', dif_neg hm.ne']
  rfl

/-- Taking zero from something leaves it. -/
theorem sub_zero_right (hm : 0 < m) {s' : Sign} :
    UnpackedFloat.sub .binary64 (ofParts s m e) (.zero s')
      = ofParts s m e := by
  rw [ofParts, dif_neg hm.ne']
  rfl

/-- A difference is that of whole numbers of the smaller unit. -/
theorem rounds_sub_of_pos {s' : Sign} {m' : Nat} {e' : Int} (hm : 0 < m)
    (hm' : 0 < m') :
    Rounds (UnpackedFloat.sub .binary64 (ofParts s m e) (ofParts s' m' e'))
      (signed s (scaled m e) - signed s' (scaled m' e')) := by
  rw [ofParts, ofParts, dif_neg hm.ne', dif_neg hm'.ne', UnpackedFloat.sub]
  unfold UnpackedFloat.decreaseExponent
  dsimp only
  obtain ⟨g, hg⟩ : ∃ g, g = min e e' := ⟨_, rfl⟩
  obtain ⟨k, hk⟩ : ∃ k : Nat, e = g + k := ⟨(e - g).toNat, by omega⟩
  obtain ⟨k', hk'⟩ : ∃ k : Nat, e' = g + k := ⟨(e' - g).toNat, by omega⟩
  have hshift : (e - g).toNat = k := by omega
  have hshift' : (e' - g).toNat = k' := by omega
  rw [← hg, hshift, hshift', Nat.shiftLeft_eq, Nat.shiftLeft_eq]
  have hexact : signed s (scaled m e) - signed s' (scaled m' e')
      = ((s.apply ((m * 2 ^ k : Nat) : Int)
        - s'.apply ((m' * 2 ^ k' : Nat) : Int) : Int) : ℚ)
        * 2 ^ g := by
    rw [Int.cast_sub, sub_mul, signed_apply, signed_apply, scaled_mul_pow,
      scaled_mul_pow, ← hk, ← hk']
  rw [hexact]
  exact rounds_normalize _ g

/-- A difference is rounded from the exact one. -/
theorem rounds_sub {m' : Nat} {e' : Int} (h : Canonical m e)
    (h' : Canonical m' e') (s s' : Sign) :
    Rounds (UnpackedFloat.sub .binary64 (ofParts s m e) (ofParts s' m' e'))
      (signed s (scaled m e) - signed s' (scaled m' e')) := by
  by_cases hm : m = 0
  · subst hm
    rw [scaled_zero, signed_zero, zero_sub, ← signed_neg]
    by_cases hm' : m' = 0
    · subst hm'
      rw [scaled_zero, signed_zero]
      show Rounds (if s == -s' then .zero s else .zero .positive) 0
      split
      · exact rounds_zero s
      · exact rounds_zero .positive
    · rw [ofParts_zero, sub_zero_left (Nat.pos_of_ne_zero hm')]
      exact rounds_self h' (-s')
  · by_cases hm' : m' = 0
    · subst hm'
      rw [scaled_zero, signed_zero, sub_zero, ofParts_zero,
        sub_zero_right (Nat.pos_of_ne_zero hm)]
      exact rounds_self h s
    · exact rounds_sub_of_pos (Nat.pos_of_ne_zero hm) (Nat.pos_of_ne_zero hm')

/-- A difference is rounded from the exact one. -/
theorem isRounding_sub {p q : ℚ} (hx : HasValue x p) (hy : HasValue y q) :
    IsRounding (x - y) (p - q) := by
  obtain ⟨negative, m, e, hx, rfl⟩ := hx
  obtain ⟨negative', m', e', hy, rfl⟩ := hy
  have hrounds := rounds_sub (Decimal.canonical_of_ofFloat hx)
    (Decimal.canonical_of_ofFloat hy)
    (signOf negative) (signOf negative')
  rw [← unpack_finite hx, ← unpack_finite hy] at hrounds
  exact ⟨_, rfl, hrounds⟩

/-- Doubles are whole multiples of the least one. -/
theorem HasValue.exists_multiple {p : ℚ} (hx : HasValue x p) :
    ∃ k : Int, p = k * 2 ^ (-1074 : Int) := by
  obtain ⟨negative, m, e, h, rfl⟩ := hx
  have hleast := (Decimal.canonical_of_ofFloat h).least
  obtain ⟨k, rfl⟩ : ∃ k : Nat, e = -1074 + k := ⟨(e + 1074).toNat, by omega⟩
  rw [← scaled_mul_pow, ← signed_apply]
  exact ⟨_, rfl⟩

/-- The difference of doubles that are not equal is not rounded to nothing. -/
theorem sub_pos_of_lt {p q : ℚ} (hx : HasValue x p) (hy : HasValue y q)
    (h : q < p) :
    0.0 < x - y := by
  have hleast : HasValue 5e-324 (1 * 2 ^ (-1074 : Int)) :=
    ⟨false, 1, -1074, by decide +kernel, by simp [signed, signOf, scaled]⟩
  have hunit : (0 : ℚ) < 2 ^ (-1074 : Int) := by positivity
  have hrounding := isRounding_sub hx hy
  obtain ⟨k, rfl⟩ := hx.exists_multiple
  obtain ⟨j, rfl⟩ := hy.exists_multiple
  have horder : j < k := by exact_mod_cast lt_of_mul_lt_mul_right h hunit.le
  have hstep : (1 : ℚ) ≤ k - j := by
    rw [← Int.cast_sub]
    exact_mod_cast Int.le_sub_left_of_add_le horder
  have hbelow : (1 : ℚ) * 2 ^ (-1074 : Int) ≤ k * 2 ^ (-1074 : Int)
      - j * 2 ^ (-1074 : Int) := by
    rw [← sub_mul]
    exact mul_le_mul_of_nonneg_right hstep hunit.le
  exact lt_of_lt_of_le (by decide +kernel) (hrounding.ge_of_ge hleast hbelow)

-- ================================================================ naturals

/-- A whole number of 64 bits is rounded to a double. -/
theorem isRounding_toFloat {n : Nat} (h : n < 2 ^ 64) :
    IsRounding n.toUInt64.toFloat n := by
  have hmade : n.toUInt64.toFloat = .ofModel (.pack
      (UnpackedFloat.normalize .binary64 (n.toUInt64.toNat : Int) 0
        .positive)) := rfl
  have hsame : n.toUInt64.toNat = n := Nat.mod_eq_of_lt h
  have hrounds := rounds_normalize (n : Int) 0
  rw [zpow_zero, mul_one, Int.cast_natCast] at hrounds
  rw [hmade, hsame]
  exact ⟨_, rfl, hrounds⟩

/-- A natural that fits a significand is converted and multiplied by one. -/
theorem ofNat_eq_mul {n : Nat} (h : n < 2 ^ 53) :
    ∃ one, HasValue one 1 ∧ Float.ofNat n = n.toUInt64.toFloat * one := by
  obtain ⟨one, hone⟩ : ∃ one, one = Float.exactlyRepresentablePowersOfTen[0] :=
    ⟨_, rfl⟩
  refine ⟨one, ⟨false, 2 ^ 52, -52, ?_, ?_⟩, ?_⟩
  · rw [hone]
    decide +kernel
  · norm_num [signOf, signed, scaled]
  · show Float.ofScientific n false 0 = _
    rw [Float.ofScientific, dif_pos ⟨h, by decide⟩, hone]
    rfl

/-- Any other natural is rounded at once. -/
theorem isRounding_ofNat_of_le {n : Nat} (h : 2 ^ 53 ≤ n) :
    IsRounding (Float.ofNat n) n := by
  have hmade : Float.ofNat n = .ofModel
      (.pack (UnpackedFloat.roundWithAccuracy .binary64
      (.positive * .positive) ((n <<< 53) * 10 ^ 0) (-53 + 0) .exact)) := by
    show Float.ofScientific n false 0 = _
    rw [Float.ofScientific, dif_neg (by omega)]
    show Float.ofModel (.pack (UnpackedFloat.ofScientific .binary64 n 0)) = _
    have hlarge : ¬(0 : Int) < -((2 ^ 11 : Int) + n.log2) := by omega
    rw [UnpackedFloat.ofScientific, dif_neg (by omega), if_neg (by decide),
      if_neg hlarge, if_pos (by decide)]
    rfl
  have hexact : (n : ℚ) = signed (.positive * .positive)
      (scaled (n * 2 ^ 53) (-53 + 0)) := by
    rw [scaled_mul_pow]
    norm_num [scaled, signed]
  rw [pow_zero, mul_one, Nat.shiftLeft_eq] at hmade
  rw [hmade, hexact]
  exact ⟨_, rfl, rounds_roundWithAccuracy _ (Or.inr (by omega))⟩

-- ================================================================= bounds

/-- What is no less than a double with a value has a value that is no less, or
is infinite. -/
theorem HasValue.of_le {p : ℚ} (hx : HasValue x p) (hle : x ≤ y) :
    (∃ q, HasValue y q ∧ p ≤ q) ∨ Binary.ofFloat y = .infinite false := by
  cases hy : Binary.ofFloat y with
  | undefined =>
      have hnumber := (isNumber_of_le hle).2
      rw [IsNumber, line, unpack_eq, hy] at hnumber
      exact absurd rfl hnumber
  | infinite negative =>
      cases negative with
      | false => exact Or.inr rfl
      | true => exact absurd hle (not_le_of_lt (hx.infinite_lt hy))
  | finite negative m e =>
      have hvalue : HasValue y (signed (signOf negative) (scaled m e)) :=
        ⟨_, _, _, hy, rfl⟩
      exact Or.inl ⟨_, hvalue, (hx.le_iff hvalue).1 hle⟩

/-- A double with a positive value unpacks to a positive finite one. -/
theorem HasValue.unpack_pos {p : ℚ} (hx : HasValue x p) (hp : 0 < p) :
    ∃ m e h, x.toModel.unpack = .finite .positive m e h := by
  obtain ⟨negative, m, e, h, rfl⟩ := hx
  rw [unpack_finite h]
  have hamount := scaled_nonneg m e
  cases negative with
  | true =>
      change 0 < -scaled m e at hp
      linarith
  | false =>
      have hm := scaled_pos_iff.1 hp
      exact ⟨m, e, hm, dif_neg hm.ne'⟩

/-- A double that bounds the product of bounds is a bound of the product. -/
theorem le_mul {a b z : Float} {p q r : ℚ} (ha : HasValue a p)
    (hb : HasValue b q)
    (hz : HasValue z r) (hp : 0 < p) (hq : 0 < q) (hax : a ≤ x) (hby : b ≤ y)
    (h : r ≤ p * q) :
    z ≤ x * y := by
  have hmul : x * y = .ofModel
      (.pack (UnpackedFloat.mul .binary64 x.toModel.unpack
      y.toModel.unpack)) := rfl
  have hinfinite : ∀ u, UnpackedFloat.mul .binary64 x.toModel.unpack
      y.toModel.unpack
      = .infinity u → u = .positive → z ≤ x * y := by
    rintro u hu rfl
    rw [hmul, hu]
    exact le_of_lt (hz.lt_infinite (ofFloat_infinity .positive))
  rcases ha.of_le hax with ⟨p', hx, hpp⟩ | hx
  · rcases hb.of_le hby with ⟨q', hy, hqq⟩ | hy
    · refine (isRounding_mul hx hy).ge_of_ge hz (h.trans ?_)
      exact mul_le_mul hpp hqq hq.le (hp.le.trans hpp)
    · obtain ⟨m, e, hm, hfinite⟩ := hx.unpack_pos (hp.trans_le hpp)
      refine hinfinite _ ?_ rfl
      rw [hfinite, unpack_infinite hy]
      rfl
  · rcases hb.of_le hby with ⟨q', hy, hqq⟩ | hy
    · obtain ⟨m, e, hm, hfinite⟩ := hy.unpack_pos (hq.trans_le hqq)
      refine hinfinite _ ?_ rfl
      rw [hfinite, unpack_infinite hx]
      rfl
    · refine hinfinite _ ?_ rfl
      rw [unpack_infinite hx, unpack_infinite hy]
      rfl

/-- A double that bounds the difference of bounds is a bound of
the difference. -/
theorem sub_le {b z : Float} {p q r : ℚ} (hx : HasValue x p)
    (hb : HasValue b q)
    (hz : HasValue z r) (hby : b ≤ y) (h : p - q ≤ r) : x - y ≤ z := by
  rcases hb.of_le hby with ⟨q', hy, hqq⟩ | hy
  · refine (isRounding_sub hx hy).le_of_le hz ?_
    linarith
  · have hsub : x - y = .ofModel (.pack (.infinity .negative)) := by
      show Float.ofModel (.pack
          (UnpackedFloat.sub .binary64 x.toModel.unpack y.toModel.unpack)) = _
      obtain ⟨negative, m, e, hx, -⟩ := hx
      rw [unpack_infinite hy, unpack_finite hx, ofParts]
      split <;> rfl
    rw [hsub]
    exact le_of_lt (hz.infinite_lt (ofFloat_infinity .negative))

/-- A double that bounds a natural is a bound of the double made from it. -/
theorem le_ofNat {z : Float} {r : ℚ} {n : Nat} (hz : HasValue z r) (hr : 0 < r)
    (h : r ≤ n) :
    z ≤ Float.ofNat n := by
  by_cases hsmall : n < 2 ^ 53
  · obtain ⟨one, hone, hmade⟩ := ofNat_eq_mul hsmall
    have hconverted : z ≤ n.toUInt64.toFloat :=
      (isRounding_toFloat (by omega)).ge_of_ge hz h
    have hself : one ≤ one := (hone.le_iff hone).2 le_rfl
    rw [hmade]
    exact le_mul hz hone hz hr one_pos hconverted hself (mul_one r).ge
  · exact (isRounding_ofNat_of_le (by omega)).ge_of_ge hz h

end GitPersona.Number
