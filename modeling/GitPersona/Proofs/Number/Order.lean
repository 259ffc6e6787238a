/-
The order of doubles. Comparing two doubles is comparing places on a
line: negative infinity, the negative ones, zero, the positive ones,
infinity. What is no number has no place, which is the only way in which
the order fails to be total. `lt_iff`, `le_iff` and `beq_iff` say this,
and what follows needs nothing else about how a double is stored.

# Choices

The first greatest element of a list is above all before it, and none
after it is above it (`FirstGreatest`); it is the one that is chosen,
once exceeding is being further up some line
(`firstGreatest_of_firstMax`). Of many lists put together it is chosen
list by list (`FirstGreatest.exists_of_flatMap`), as nested loops do. A
number brought into the unit interval is in it (`clamp_spec`), even when
it was no number before.
-/
import GitPersona.Choice
import Mathlib

namespace GitPersona.Number

open Float.Model (UnpackedFloat)

-- ============================================================ the line

/-- A place on the line: the side of zero, the exponent there, the
significand there. -/
abbrev Place := Int ×ₗ Int ×ₗ Int

/-- The place with the given parts. -/
def Place.at (side exponent significand : Int) : WithBot Place :=
  ((toLex (side, toLex (exponent, significand)) : Place) : WithBot Place)

/-- Places compare by sign, then by exponent, then by digits. -/
@[simp]
theorem Place.at_lt_iff {s s' e e' m m' : Int} :
    Place.at s e m < Place.at s' e' m'
      ↔ s < s' ∨ s = s' ∧ (e < e' ∨ e = e' ∧ m < m') := by
  simp [Place.at, Prod.Lex.toLex_lt_toLex]

/-- A place says what sign, exponent and digits it is made of. -/
@[simp]
theorem Place.at_eq_iff {s s' e e' m m' : Int} :
    Place.at s e m = Place.at s' e' m' ↔ s = s' ∧ e = e' ∧ m = m' := by
  simp [Place.at]

@[simp]
theorem Place.at_ne_bot {s e m : Int} : Place.at s e m ≠ ⊥ :=
  WithBot.coe_ne_bot

@[simp]
theorem Place.bot_ne_at {s e m : Int} : ⊥ ≠ Place.at s e m :=
  Place.at_ne_bot.symm

/-- The place of a value, below every place when it is no number. -/
def place : UnpackedFloat → WithBot Place
  | .notANumber => ⊥
  | .infinity .negative => Place.at (-2) 0 0
  | .finite .negative significand exponent _ =>
      Place.at (-1) (-exponent) (-significand)
  | .zero _ => Place.at 0 0 0
  | .finite .positive significand exponent _ => Place.at 1 exponent significand
  | .infinity .positive => Place.at 2 0 0

/-- The place of a double. -/
def line (x : Float) : WithBot Place :=
  place x.toModel.unpack

/-- A double that is a number, one of the infinities included. -/
def IsNumber (x : Float) : Prop :=
  line x ≠ ⊥

/-- What is not a number is recognized as such. -/
theorem isNaN_iff (x : Float) : x.isNaN = true ↔ ¬IsNumber x := by
  show x.toModel.unpack.isNaN = true ↔ _
  unfold IsNumber line
  generalize x.toModel.unpack = u
  rcases u with s | _ | s | ⟨s, m, e, hm⟩
  all_goals try cases s
  all_goals simp [place, UnpackedFloat.isNaN]

theorem isNaN_eq_false_iff {x : Float} : x.isNaN = false ↔ IsNumber x := by
  rw [← Bool.not_eq_true, isNaN_iff, not_not]

-- ======================================================= the comparisons

/-- A negative sign stands before a positive one. -/
private theorem compare_sign_lt :
    compare UnpackedFloat.Sign.negative .positive = .lt :=
  rfl

private theorem compare_sign_self (s : UnpackedFloat.Sign) :
    compare s s = .eq := by
  cases s <;> rfl

/-- Two comparisons, one after another, say "greater" as the pairs do. -/
private theorem then_compare_eq_gt_iff {e e' : Int} {m m' : Nat} :
    (compare e e').then (compare m m') = .gt ↔ e' < e ∨ e = e' ∧ m' < m := by
  rw [Ordering.then_eq_gt, compare_gt_iff_gt, compare_eq_iff_eq,
    compare_gt_iff_gt]

/-- Comparing takes numbers apart by their places: less is a smaller place. -/
theorem compare_eq_lt_iff (a b : UnpackedFloat) :
    a.compare b = some .lt ↔ place a ≠ ⊥ ∧ place a < place b := by
  rcases a with s | _ | s | ⟨s, m, e, hm⟩ <;> rcases b with
    s' | _ | s' | ⟨s', m', e', hm'⟩
  all_goals try cases s
  all_goals try cases s'
  all_goals simp [UnpackedFloat.compare, place, Ordering.then_eq_lt,
    compare_lt_iff_lt,
    then_compare_eq_gt_iff, compare_sign_lt]

/-- Equal in comparison are numbers in the same place. -/
theorem compare_eq_eq_iff (a b : UnpackedFloat) :
    a.compare b = some .eq ↔ place a ≠ ⊥ ∧ place a = place b := by
  rcases a with s | _ | s | ⟨s, m, e, hm⟩ <;> rcases b with
    s' | _ | s' | ⟨s', m', e', hm'⟩
  all_goals try cases s
  all_goals try cases s'
  all_goals simp [UnpackedFloat.compare, place, compare_sign_self]

/-- A double is less than another when it is a number and stands before it
on the line. -/
theorem lt_iff {x y : Float} : x < y ↔ IsNumber x ∧ line x < line y := by
  have hlt : x < y ↔ x.toModel.unpack.lt y.toModel.unpack = true :=
    decide_eq_true_iff
  rw [hlt, IsNumber, line, line, ← compare_eq_lt_iff, UnpackedFloat.lt,
    beq_iff_eq]

/-- A double equals another when it is a number and stands in its place. -/
theorem beq_iff {x y : Float} :
    (x == y) = true ↔ IsNumber x ∧ line x = line y := by
  have heq : (x == y) = x.toModel.unpack.beq y.toModel.unpack := rfl
  rw [heq, IsNumber, line, line, ← compare_eq_eq_iff, UnpackedFloat.beq,
    beq_iff_eq]

/-- A double is at most another when it is a number and does not
stand after it. -/
theorem le_iff {x y : Float} : x ≤ y ↔ IsNumber x ∧ line x ≤ line y := by
  have hle : x ≤ y ↔ x.toModel.unpack.le y.toModel.unpack = true :=
    decide_eq_true_iff
  have hany : ∀ o : Option Ordering, o.any (·.isLE) = true
      ↔ o = some .lt ∨ o = some .eq := by
    intro o
    rcases o with _ | _ | _ | _ <;> simp
  rw [hle, UnpackedFloat.le, hany, compare_eq_lt_iff, compare_eq_eq_iff,
    ← and_or_left, le_iff_lt_or_eq]
  rfl

theorem IsNumber.le_iff {x y : Float} (hx : IsNumber x) :
    x ≤ y ↔ line x ≤ line y := by
  rw [Number.le_iff, and_iff_right hx]

theorem IsNumber.lt_iff {x y : Float} (hx : IsNumber x) :
    x < y ↔ line x < line y := by
  rw [Number.lt_iff, and_iff_right hx]

theorem IsNumber.beq_iff {x y : Float} (hx : IsNumber x) :
    (x == y) = true ↔ line x = line y := by
  rw [Number.beq_iff, and_iff_right hx]

/-- What compares with anything is a number. -/
theorem isNumber_of_le {x y : Float} (h : x ≤ y) :
    IsNumber x ∧ IsNumber y := by
  obtain ⟨hx, hle⟩ := le_iff.1 h
  exact ⟨hx, fun hy => hx (le_bot_iff.1 (hy ▸ hle))⟩

/-- What is less is at most. -/
theorem le_of_lt {x y : Float} (h : x < y) : x ≤ y := by
  rw [lt_iff] at h
  rw [le_iff]
  exact ⟨h.1, h.2.le⟩

/-- Equal doubles are no further up than each other. -/
theorem ge_of_beq {x y : Float} (h : (x == y) = true) : y ≤ x := by
  rw [beq_iff] at h
  have hy : IsNumber y := by
    rw [IsNumber, ← h.2]
    exact h.1
  rw [le_iff]
  exact ⟨hy, h.2.ge⟩

/-- The order is transitive, for numbers or not. -/
theorem le_trans {x y z : Float} (hxy : x ≤ y) (hyz : y ≤ z) : x ≤ z := by
  rw [le_iff] at hxy hyz ⊢
  exact ⟨hxy.1, hxy.2.trans hyz.2⟩

/-- Less than something that is at most a third is less than the third. -/
theorem lt_of_lt_of_le {x y z : Float} (hxy : x < y)
    (hyz : y ≤ z) : x < z := by
  rw [lt_iff] at hxy ⊢
  rw [le_iff] at hyz
  exact ⟨hxy.1, hxy.2.trans_le hyz.2⟩

/-- At most something that is less than a third is less than the third. -/
theorem lt_of_le_of_lt {x y z : Float} (hxy : x ≤ y)
    (hyz : y < z) : x < z := by
  rw [lt_iff] at hyz ⊢
  rw [le_iff] at hxy
  exact ⟨hxy.1, hxy.2.trans_lt hyz.2⟩

/-- Of two numbers one is at most the other. -/
theorem le_of_not_lt {x y : Float} (hx : IsNumber x) (hy : IsNumber y)
    (h : ¬x < y) : y ≤ x := by
  rw [hx.lt_iff, not_lt] at h
  exact hy.le_iff.2 h

/-- Of two numbers, one that is not at most the other is greater. -/
theorem lt_of_not_le {x y : Float} (hx : IsNumber x) (hy : IsNumber y)
    (h : ¬x ≤ y) : y < x := by
  rw [hx.le_iff, not_le] at h
  exact hy.lt_iff.2 h

/-- Only the two zeros share a place, so no positive doubles do. -/
theorem eq_of_le_of_le {x y : Float} (hpos : 0.0 < x) (hxy : x ≤ y)
    (hyx : y ≤ x) : x = y := by
  rw [le_iff] at hxy hyx
  have hbeq : (x == y) = true := beq_iff.2 ⟨hxy.1, le_antisymm hxy.2 hyx.2⟩
  obtain ⟨-, -, h | ⟨rfl, -⟩ | ⟨rfl, -⟩⟩ := Float.beq_iff_ne_nan_and_eq.1 hbeq
  · exact h
  · exact absurd hpos (by decide)
  · exact absurd hpos (by decide)

/-- What is not due at a moment is due later, or never, being no number. -/
theorem lt_or_isNaN_of_not_le {x now : Float} (hnow : IsNumber now)
    (h : ¬x ≤ now) :
    now < x ∨ x.isNaN = true := by
  by_cases hx : IsNumber x
  · rw [hx.le_iff, not_le] at h
    exact Or.inl (hnow.lt_iff.2 h)
  · exact Or.inr ((isNaN_iff x).2 hx)

/-- A greater number is not at most a lesser one. -/
theorem not_le_of_lt {x y : Float} (h : x < y) : ¬y ≤ x := by
  rw [lt_iff] at h
  rw [le_iff]
  exact fun hle => not_le.2 h.2 hle.2

-- ============================================================== choices

/-- An element is the first greatest one of a list: all before it are below it,
and none after it is above it. -/
def FirstGreatest {α β : Type} [LinearOrder β] (key : α → β) (l : List α)
    (m : α) : Prop :=
  ∃ before after, l = before ++ m :: after
    ∧ (∀ a ∈ before, key a < key m) ∧ ∀ a ∈ after, key a ≤ key m

namespace FirstGreatest

variable {α β : Type} [LinearOrder β] {key : α → β} {l : List α} {m a b : α}

/-- The first greatest is one of the list. -/
theorem mem (h : FirstGreatest key l m) : m ∈ l := by
  obtain ⟨before, after, rfl, -, -⟩ := h
  exact List.mem_append_right _ List.mem_cons_self

/-- No key of the list is greater than that of the first greatest. -/
theorem le (h : FirstGreatest key l m) (ha : a ∈ l) : key a ≤ key m := by
  obtain ⟨before, after, rfl, hbefore, hafter⟩ := h
  rcases List.mem_append.1 ha with ha | ha
  · exact (hbefore a ha).le
  · rcases List.mem_cons.1 ha with rfl | ha
    · exact le_rfl
    · exact hafter a ha

/-- An element below the greatest one may come first. -/
theorem cons (h : FirstGreatest key l m) (hlt : key a < key m) :
    FirstGreatest key (a :: l) m := by
  obtain ⟨before, after, rfl, hbefore, hafter⟩ := h
  exact ⟨a :: before, after, rfl, List.forall_mem_cons.2 ⟨hlt, hbefore⟩,
    hafter⟩

/-- An element that is not above the first one may come second. -/
theorem insert (h : FirstGreatest key (b :: l) m) (hle : key a ≤ key b) :
    FirstGreatest key (b :: a :: l) m := by
  obtain ⟨before, after, hsplit, hbefore, hafter⟩ := h
  cases before with
  | nil =>
      obtain ⟨rfl, rfl⟩ := List.cons.inj hsplit
      exact ⟨[], a :: l, rfl, hbefore, List.forall_mem_cons.2 ⟨hle, hafter⟩⟩
  | cons first before =>
      obtain ⟨rfl, rfl⟩ := List.cons.inj hsplit
      obtain ⟨hb, hbefore⟩ := List.forall_mem_cons.1 hbefore
      refine ⟨b :: a :: before, after, rfl, ?_, hafter⟩
      exact List.forall_mem_cons.2
        ⟨hb, List.forall_mem_cons.2 ⟨hle.trans_lt hb, hbefore⟩⟩

/-- What is left out of a list below its first greatest element
may come back. -/
theorem of_filter {kept : α → Bool} (h : FirstGreatest key (l.filter kept) m)
    (hlow : ∀ a ∈ l, kept a = false → key a < key m) :
    FirstGreatest key l m := by
  obtain ⟨before, after, hsplit, hbefore, hafter⟩ := h
  obtain ⟨front, back, rfl, rfl, hback⟩ := List.filter_eq_append_iff.1 hsplit
  obtain ⟨skipped, rest, rfl, hskipped, -, rfl⟩ :=
    List.filter_eq_cons_iff.1 hback
  refine ⟨front ++ skipped, rest, (List.append_assoc _ _ _).symm,
    fun a ha => ?_, fun a ha => ?_⟩
  · rcases List.mem_append.1 ha with ha | ha
    · cases hkept : kept a with
      | true => exact hbefore a (List.mem_filter.2 ⟨ha, hkept⟩)
      | false => exact hlow a (by simp [ha]) hkept
    · exact hlow a (by simp [ha]) (by simpa using hskipped a ha)
  · cases hkept : kept a with
    | true => exact hafter a (List.mem_filter.2 ⟨ha, hkept⟩)
    | false => exact (hlow a (by simp [ha]) hkept).le

/-- A list has one first greatest element. -/
theorem unique {m' : α} (h : FirstGreatest key l m)
    (h' : FirstGreatest key l m') : m = m' := by
  obtain ⟨before, after, rfl, hbefore, hafter⟩ := h
  obtain ⟨before', after', hsplit, hbefore', hafter'⟩ := h'
  -- the one that comes second would be above the first and not above it
  rcases List.append_eq_append_iff.1 hsplit with
    ⟨more, rfl, hmore⟩ | ⟨more, rfl, hmore⟩
  · cases more with
    | nil => exact (List.cons.inj hmore).1
    | cons first more =>
        obtain ⟨rfl, rfl⟩ := List.cons.inj hmore
        have hlt : key m < key m' := hbefore' m (by simp)
        have hle : key m' ≤ key m := hafter m' (by simp)
        exact absurd hlt (not_lt.2 hle)
  · cases more with
    | nil => exact (List.cons.inj hmore).1.symm
    | cons first more =>
        obtain ⟨rfl, rfl⟩ := List.cons.inj hmore
        have hlt : key m' < key m := hbefore m' (by simp)
        have hle : key m ≤ key m' := hafter' m (by simp)
        exact absurd hlt (not_lt.2 hle)

/-- The first greatest element stays so as long as it is kept itself. -/
theorem filter {kept : α → Bool} (h : FirstGreatest key l m)
    (hm : kept m = true) :
    FirstGreatest key (l.filter kept) m := by
  obtain ⟨before, after, rfl, hbefore, hafter⟩ := h
  refine ⟨before.filter kept, after.filter kept, ?_, fun a ha => ?_,
    fun a ha => ?_⟩
  · rw [List.filter_append, List.filter_cons_of_pos hm]
  · exact hbefore a (List.mem_of_mem_filter ha)
  · exact hafter a (List.mem_of_mem_filter ha)

/-- The first greatest of mapped values comes from the first greatest
of the values. -/
theorem exists_of_map {γ : Type} {f : γ → α} {cs : List γ}
    (h : FirstGreatest key (cs.map f) m) :
    ∃ c, m = f c ∧ FirstGreatest (key ∘ f) cs c := by
  obtain ⟨before, after, hsplit, hbefore, hafter⟩ := h
  obtain ⟨front, back, rfl, rfl, hback⟩ := List.map_eq_append_iff.1 hsplit
  obtain ⟨c, rest, rfl, rfl, rfl⟩ := List.map_eq_cons_iff.1 hback
  refine ⟨c, rfl, front, rest, rfl, fun a ha => ?_, fun a ha => ?_⟩
  · exact hbefore _ (List.mem_map_of_mem ha)
  · exact hafter _ (List.mem_map_of_mem ha)

/-- The first greatest element of two lists is the one of the first, or the one
of the second above all of the first. -/
theorem append_cases {as bs : List α} (h : FirstGreatest key (as ++ bs) m) :
    FirstGreatest key as m ∨ FirstGreatest key bs m
      ∧ ∀ a ∈ as, key a < key m := by
  obtain ⟨before, after, hsplit, hbefore, hafter⟩ := h
  rcases List.append_eq_append_iff.1 hsplit with
    ⟨more, rfl, rfl⟩ | ⟨more, rfl, hmore⟩
  · obtain ⟨has, hmore⟩ := List.forall_mem_append.1 hbefore
    exact Or.inr ⟨⟨more, after, rfl, hmore, hafter⟩, has⟩
  · rcases List.cons_eq_append_iff.1 hmore with ⟨rfl, rfl⟩ | ⟨more, rfl, rfl⟩
    · rw [List.append_nil]
      exact Or.inr ⟨⟨[], after, rfl, by simp, hafter⟩, hbefore⟩
    · exact Or.inl ⟨before, more, rfl, hbefore,
        (List.forall_mem_append.1 hafter).1⟩

/-- The first greatest element of many lists is the one of its own list, above
all of the lists before that. -/
theorem exists_of_flatMap {γ : Type} {f : γ → List α} {cs : List γ}
    (h : FirstGreatest key (cs.flatMap f) m) :
    ∃ before c after, cs = before ++ c :: after ∧ FirstGreatest key (f c) m
      ∧ ∀ b ∈ before, ∀ a ∈ f b, key a < key m := by
  induction cs with
  | nil => exact absurd h.mem List.not_mem_nil
  | cons c cs ih =>
      rw [List.flatMap_cons] at h
      rcases h.append_cases with hhere | ⟨hlater, hbelow⟩
      · exact ⟨[], c, cs, rfl, hhere, by simp⟩
      · obtain ⟨before, d, after, rfl, hd, hbefore⟩ := ih hlater
        exact ⟨c :: before, d, after, rfl, hd,
          List.forall_mem_cons.2 ⟨hbelow, hbefore⟩⟩

end FirstGreatest

/-- Going through a list and keeping what is not exceeded gives the
first greatest. -/
private theorem firstGreatest_foldl {α β : Type} [LinearOrder β]
    {exceeds : α → α → Bool}
    {key : α → β} {as : List α} {best : α}
    (hexceeds : ∀ a ∈ best :: as, ∀ b ∈ best :: as, exceeds a b = true
        ↔ key b < key a) :
    FirstGreatest key (best :: as)
      (as.foldl (fun best x => if exceeds x best then x else best) best) := by
  induction as generalizing best with
  | nil => exact ⟨[], [], rfl, by simp, by simp⟩
  | cons x as ih =>
      rw [List.foldl_cons]
      have hheads : exceeds x best = true ↔ key best < key x :=
        hexceeds x (by simp) best (by simp)
      by_cases hx : exceeds x best = true
      · rw [if_pos hx]
        have hrest := ih fun a ha b hb =>
          hexceeds a (List.mem_cons_of_mem _ ha) b (List.mem_cons_of_mem _ hb)
        exact hrest.cons ((hheads.1 hx).trans_le (hrest.le List.mem_cons_self))
      · rw [if_neg hx]
        have hsub : ∀ a ∈ best :: as, a ∈ best :: x :: as := by
          intro a ha
          rcases List.mem_cons.1 ha with rfl | ha
          · exact List.mem_cons_self
          · exact List.mem_cons_of_mem _ (List.mem_cons_of_mem _ ha)
        have hrest := ih fun a ha b hb => hexceeds a (hsub a ha) b (hsub b hb)
        exact hrest.insert (not_lt.1 fun hlt => hx (hheads.2 hlt))

/-- The choice is the first greatest element, once exceeding is having the
greater key. -/
theorem firstGreatest_of_firstMax {α β : Type} [LinearOrder β]
    {exceeds : α → α → Bool}
    (key : α → β) {l : List α} {m : α}
    (hexceeds : ∀ a ∈ l, ∀ b ∈ l, exceeds a b = true ↔ key b < key a)
    (hm : firstMax exceeds l = some m) : FirstGreatest key l m := by
  cases l with
  | nil => cases hm
  | cons a as =>
      cases hm
      exact firstGreatest_foldl hexceeds

/-- Only an empty list has no maximum. -/
theorem firstMax_eq_none_iff {α : Type} {exceeds : α → α → Bool} {l : List α} :
    firstMax exceeds l = none ↔ l = [] := by
  cases l with
  | nil => simp [firstMax]
  | cons a l => simp [firstMax]

/-- A choice goes past whatever it does not look at. -/
theorem firstMax_map {α β : Type} {exceeds : α → α → Bool}
    {exceeds' : β → β → Bool} (f : α → β)
    (hexceeds : ∀ a b, exceeds' (f a) (f b) = exceeds a b) (l : List α) :
    firstMax exceeds' (l.map f) = (firstMax exceeds l).map f := by
  cases l with
  | nil => rfl
  | cons a as =>
      simp only [List.map_cons, firstMax, Option.map_some, Option.some.injEq]
      induction as generalizing a with
      | nil => rfl
      | cons b as ih =>
          rw [List.map_cons, List.foldl_cons, List.foldl_cons, hexceeds]
          by_cases hb : exceeds b a = true
          · rw [if_pos hb, if_pos hb]
            exact ih b
          · rw [if_neg hb, if_neg hb]
            exact ih a

/-- What is chosen is the first greatest element, and nothing else is that. -/
theorem firstMax_eq_some_iff {α β : Type} [LinearOrder β]
    {exceeds : α → α → Bool} (key : α → β)
    {l : List α} {m : α}
    (hexceeds : ∀ a ∈ l, ∀ b ∈ l, exceeds a b = true ↔ key b < key a) :
    firstMax exceeds l = some m ↔ FirstGreatest key l m := by
  constructor
  · exact firstGreatest_of_firstMax key hexceeds
  · intro hfirst
    cases hchosen : firstMax exceeds l with
    | none =>
        rw [firstMax_eq_none_iff] at hchosen
        rw [hchosen] at hfirst
        exact absurd hfirst.mem List.not_mem_nil
    | some chosen =>
        have hother := firstGreatest_of_firstMax key hexceeds hchosen
        rw [hother.unique hfirst]

/-- A number brought into the unit interval is in it. -/
theorem clamp_spec (x : Float) : 0.0 ≤ clamp x ∧ clamp x ≤ 1.0 := by
  have hunit : (0.0 : Float) ≤ 1.0 := by decide
  have hzero : (0.0 : Float) ≤ 0.0 := by decide
  have hone : (1.0 : Float) ≤ 1.0 := by decide
  show 0.0 ≤ (if (if x ≤ 0.0 then 0.0 else x) ≤ 1.0
      then (if x ≤ 0.0 then 0.0 else x) else 1.0)
    ∧ (if (if x ≤ 0.0 then 0.0 else x) ≤ 1.0 then (if x ≤ 0.0 then 0.0 else x)
      else 1.0) ≤ 1.0
  by_cases hlow : x ≤ 0.0
  · rw [if_pos hlow, if_pos hunit]
    exact ⟨hzero, hunit⟩
  · rw [if_neg hlow]
    by_cases hhigh : x ≤ 1.0
    · rw [if_pos hhigh]
      have hx := (isNumber_of_le hhigh).1
      rw [hx.le_iff, not_le] at hlow
      exact ⟨(isNumber_of_le hzero).1.le_iff.2 hlow.le, hhigh⟩
    · rw [if_neg hhigh]
      exact ⟨hunit, hone⟩

/-- A number in the unit interval stays as it is, unless it is the
negative zero. -/
theorem clamp_eq_self {x : Float} (hlow : x = 0.0 ∨ 0.0 < x)
    (hhigh : x ≤ 1.0) : clamp x = x := by
  rcases hlow with rfl | hpositive
  · decide
  · show (if (if x ≤ 0.0 then 0.0 else x) ≤ 1.0
        then (if x ≤ 0.0 then 0.0 else x) else 1.0) = x
    rw [if_neg (not_le_of_lt hpositive), if_pos hhigh]

/-- Bringing numbers into the unit interval keeps their order. -/
theorem clamp_le_clamp {x y : Float} (h : x ≤ y) : clamp x ≤ clamp y := by
  obtain ⟨hx, hy⟩ := isNumber_of_le h
  have hzero : IsNumber 0.0 := (isNumber_of_le (clamp_spec x).1).1
  have hone : IsNumber 1.0 := (isNumber_of_le (clamp_spec x).2).2
  have hunit : (0.0 : Float) ≤ 1.0 := by decide
  have hparts : ∀ {z : Float}, IsNumber z →
      line (clamp z) = min (max (line z) (line 0.0)) (line 1.0) := by
    intro z hz
    show line (if (if z ≤ 0.0 then 0.0 else z) ≤ 1.0
        then (if z ≤ 0.0 then 0.0 else z) else 1.0) = _
    by_cases hlow : z ≤ 0.0
    · rw [if_pos hlow, if_pos hunit, max_eq_right (hz.le_iff.1 hlow),
        min_eq_left (hzero.le_iff.1 hunit)]
    · have hpos := hlow
      rw [hz.le_iff, not_le] at hpos
      rw [if_neg hlow, max_eq_left hpos.le]
      by_cases hhigh : z ≤ 1.0
      · rw [if_pos hhigh, min_eq_left (hz.le_iff.1 hhigh)]
      · rw [if_neg hhigh]
        rw [hz.le_iff, not_le] at hhigh
        exact (min_eq_right hhigh.le).symm
  have hclamp : IsNumber (clamp x) := (isNumber_of_le (clamp_spec x).1).2
  rw [hclamp.le_iff, hparts hx, hparts hy]
  exact min_le_min_right _ (max_le_max_right _ (hx.le_iff.1 h))

/-- What is cut to a score is a number. -/
theorem isNumber_clamp (x : Float) : IsNumber (clamp x) :=
  (isNumber_of_le (clamp_spec x).2).1

end GitPersona.Number
