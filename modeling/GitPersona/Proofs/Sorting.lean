/-
What a stable sort of outcomes amounts to, place by place. A list is
read through a partial function and what comes out is sorted by a key;
`placements` is that sorted list with the position that each outcome
came from. Nothing is lost or doubled (`mem_placements_iff`,
`nodup_placements`), and along it keys never fall and positions rise
where keys agree (`pairwise_placements`), which leaves one list only.
Dropping before the sort is therefore dropping after it
(`sorted_filter`), be it outcomes (`placements_filter`) or elements of
the list that is read (`placements_selected`). Where keys tell outcomes
apart, positions do not count (`mergeSort_eq_of_perm`).

# By score and name

Results are sorted by a score, the greatest first, and equal scores by
name. The comparison they are sorted by is not a total order on all
doubles; it is one on scores that are numbers, where it is the order of
`standing`. A floor on the score is therefore a cut of the sorted list
(`placements_floor`).
-/
import GitPersona.Proofs.Number.Order
import Mathlib.Data.List.Nodup
import Mathlib.Data.List.Perm.Basic
import Mathlib.Data.String.Basic

namespace GitPersona.Sorting

variable {α β κ : Type} [LinearOrder κ]

-- ========================================================== placements

/-- The outcomes of a list, each with its position, as they came. -/
def outcomes (f : α → Option β) (l : List α) : List (Nat × β) :=
  l.zipIdx.filterMap fun x => (f x.1).map fun b => (x.2, b)

/-- The outcomes of a list, each with its position, sorted by a key. -/
def placements (f : α → Option β) (key : β → κ) (l : List α) :
    List (Nat × β) :=
  (outcomes f l).mergeSort fun x y => decide (key x.2 ≤ key y.2)

/-- The first outcome has a lower key, or the same key from an
earlier position. -/
def Before (key : β → κ) (x y : Nat × β) : Prop :=
  key x.2 < key y.2 ∨ key x.2 = key y.2 ∧ x.1 < y.1

/-- Of two items only one comes before the other. -/
theorem Before.not_symm {key : β → κ} {x y : Nat × β} (h : Before key x y) :
    ¬ Before key y x := by
  rintro (hlt | ⟨heq, hpos⟩)
  · rcases h with hlt' | ⟨heq', -⟩
    · exact lt_asymm hlt hlt'
    · exact hlt.ne heq'.symm
  · rcases h with hlt' | ⟨-, hpos'⟩
    · exact hlt'.ne heq.symm
    · omega

-- ============================================================ as they came

/-- Without their positions, the outcomes are what comes of the items. -/
theorem map_snd_outcomes (f : α → Option β) (l : List α) :
    (outcomes f l).map Prod.snd = l.filterMap f := by
  rw [outcomes, List.map_filterMap]
  calc l.zipIdx.filterMap (fun x =>
    ((f x.1).map fun b => (x.2, b)).map Prod.snd)
      = l.zipIdx.filterMap (f ∘ Prod.fst) := by
        refine List.filterMap_congr fun x _ => ?_
        cases hx : f x.1 <;> simp [hx]
    _ = l.filterMap f := by rw [← List.filterMap_map, List.zipIdx_map_fst]

/-- Outcomes that tell what they came from lead back to the elements
that have one. -/
theorem map_filterMap_eq_filter {f : α → Option β} {g : β → α}
    (h : ∀ a b, f a = some b → g b = a)
    (l : List α) : (l.filterMap f).map g = l.filter fun a => (f a).isSome := by
  rw [List.map_filterMap, ← List.filterMap_eq_filter]
  refine List.filterMap_congr fun a _ => ?_
  cases ha : f a with
  | none => simp [Option.guard, ha]
  | some b => simp [Option.guard, ha, h a b ha]

/-- An outcome belongs to a position when it comes of the item there. -/
theorem mem_outcomes_iff {f : α → Option β} {l : List α} {i : Nat} {b : β} :
    (i, b) ∈ outcomes f l ↔ ∃ a, l[i]? = some a ∧ f a = some b := by
  simp only [outcomes, List.mem_filterMap, Option.map_eq_some_iff,
    Prod.mk.injEq, Prod.exists, List.mem_zipIdx_iff_getElem?]
  constructor
  · rintro ⟨a, j, hget, c, hf, rfl, rfl⟩
    exact ⟨a, hget, hf⟩
  · rintro ⟨a, hget, hf⟩
    exact ⟨a, i, hget, b, hf, rfl, rfl⟩

/-- The outcomes stand in the order of their positions. -/
theorem pairwise_outcomes (f : α → Option β) (l : List α) :
    (outcomes f l).Pairwise fun x y => x.1 < y.1 := by
  rw [outcomes, List.pairwise_filterMap]
  have hpos : l.zipIdx.Pairwise fun x y => x.2 < y.2 := by
    rw [← List.pairwise_map (f := Prod.snd) (R := (· < ·)),
      List.zipIdx_map_snd]
    exact List.pairwise_lt_range'
  refine hpos.imp fun {x y} hlt b hb c hc => ?_
  obtain ⟨-, -, rfl⟩ := Option.map_eq_some_iff.1 hb
  obtain ⟨-, -, rfl⟩ := Option.map_eq_some_iff.1 hc
  exact hlt

-- ================================================================ sorted

/-- Sorting places every outcome once. -/
theorem perm_placements (f : α → Option β) (key : β → κ) (l : List α) :
    (placements f key l).Perm (outcomes f l) :=
  List.mergeSort_perm _ _

/-- Without the positions, the outcomes sorted by their keys. -/
theorem map_snd_placements (f : α → Option β) (key : β → κ) (l : List α) :
    (placements f key l).map Prod.snd
      = (l.filterMap f).mergeSort fun a b => decide (key a ≤ key b) := by
  rw [← map_snd_outcomes]
  exact List.map_mergeSort fun _ _ _ _ => rfl

/-- What is placed is the outcomes, each with its position. -/
theorem mem_placements_iff {f : α → Option β} {key : β → κ} {l : List α}
    {i : Nat} {b : β} :
    (i, b) ∈ placements f key l ↔ ∃ a, l[i]? = some a ∧ f a = some b := by
  rw [(perm_placements f key l).mem_iff, mem_outcomes_iff]

/-- No position comes twice. -/
theorem nodup_placements (f : α → Option β) (key : β → κ) (l : List α) :
    ((placements f key l).map Prod.fst).Nodup := by
  refine (((perm_placements f key l).map Prod.fst).nodup_iff).2 ?_
  rw [List.nodup_iff_pairwise_ne, List.pairwise_map]
  exact (pairwise_outcomes f l).imp fun hlt => Nat.ne_of_lt hlt

/-- Two members of a list come in one order or the other. -/
private theorem pair_sublist_or {γ : Type} {l : List γ} {x y : γ} (hx : x ∈ l)
    (hy : y ∈ l)
    (hne : x ≠ y) : [x, y].Sublist l ∨ [y, x].Sublist l := by
  obtain ⟨s, t, rfl⟩ := List.append_of_mem hx
  rcases List.mem_append.1 hy with hy | hy
  · exact Or.inr ((List.singleton_sublist.2 hy).append
      (List.singleton_sublist.2 List.mem_cons_self))
  · rcases List.mem_cons.1 hy with rfl | hy
    · exact absurd rfl hne
    · exact Or.inl
        ((List.Sublist.cons_cons x (List.singleton_sublist.2 hy)).trans
        (List.sublist_append_right s (x :: t)))

/-- Without doubles, two members come in one order only. -/
private theorem not_pair_sublist_of_nodup {γ : Type} {l : List γ} {x y : γ}
    (hl : l.Nodup)
    (h : [x, y].Sublist l) : ¬ [y, x].Sublist l := by
  intro h'
  obtain ⟨s, t, rfl, hx, hy⟩ := List.cons_sublist_iff.1 h
  have hdisjoint := List.disjoint_of_nodup_append hl
  have hyt : y ∈ t := List.singleton_sublist.1 hy
  obtain ⟨u, v, huv, hu, hv⟩ := List.sublist_append_iff.1 h'
  cases u with
  | nil =>
      rw [List.nil_append] at huv
      exact hdisjoint hx (hv.subset (huv ▸ by simp))
  | cons c u =>
      obtain ⟨rfl, -⟩ := List.cons.inj huv
      exact hdisjoint (hu.subset List.mem_cons_self) hyt

/-- Sorting by keys a list along which positions rise: keys never fall, and
where they agree the positions rise. -/
theorem pairwise_sorted (key : β → κ) {os : List (Nat × β)}
    (hpos : os.Pairwise fun x y => x.1 < y.1) :
    (os.mergeSort fun x y => decide (key x.2 ≤ key y.2)).Pairwise
      (Before key) := by
  have htrans : ∀ x y z : Nat × β, decide (key x.2 ≤ key y.2) = true →
      decide (key y.2 ≤ key z.2) = true →
        decide (key x.2 ≤ key z.2) = true := by
    simp only [decide_eq_true_eq]
    exact fun _ _ _ => le_trans
  have htotal : ∀ x y : Nat × β,
      (decide (key x.2 ≤ key y.2) || decide (key y.2 ≤ key x.2)) = true := by
    simp only [Bool.or_eq_true, decide_eq_true_eq]
    exact fun x y => le_total _ _
  have hperm := List.mergeSort_perm os fun x y => decide (key x.2 ≤ key y.2)
  have hnodup := ((hperm.map Prod.fst).nodup_iff).2
    (List.pairwise_map.2 (hpos.imp fun hlt => Nat.ne_of_lt hlt))
  rw [List.pairwise_iff_forall_sublist]
  intro x y hxy
  have hle : key x.2 ≤ key y.2 := by
    simpa using List.pairwise_iff_forall_sublist.1
      (List.pairwise_mergeSort htrans htotal _) hxy
  have hne : x.1 ≠ y.1 := by
    have hpair := (hxy.map Prod.fst).nodup hnodup
    simpa using hpair
  rcases hle.lt_or_eq with hlt | heq
  · exact Or.inl hlt
  -- keys agree: had `y` come first, the sort would have left it first
  refine Or.inr ⟨heq, Nat.lt_of_le_of_ne (Nat.not_lt.1 fun hback => ?_) hne⟩
  have hmem : ∀ z ∈ [x, y], z ∈ os :=
    fun z hz => hperm.mem_iff.1 (hxy.subset hz)
  rcases pair_sublist_or (hmem x (by simp)) (hmem y (by simp))
    (fun h => hne (congrArg _ h)) with
    hcame | hcame
  · exact absurd (List.pairwise_iff_forall_sublist.1 hpos hcame) (by omega)
  · have hsorted := List.pair_sublist_mergeSort htrans htotal
      (by simpa using heq.ge) hcame
    exact not_pair_sublist_of_nodup hnodup.of_map hxy hsorted

/-- The placements stand in order. -/
theorem pairwise_placements (f : α → Option β) (key : β → κ) (l : List α) :
    (placements f key l).Pairwise (Before key) :=
  pairwise_sorted key (pairwise_outcomes f l)

-- ============================================================== dropping

/-- Dropping before the sort is dropping after it. -/
theorem sorted_filter (key : β → κ) {os : List (Nat × β)}
    (hpos : os.Pairwise fun x y => x.1 < y.1) (q : Nat × β → Bool) :
    (os.filter q).mergeSort (fun x y => decide (key x.2 ≤ key y.2))
      = (os.mergeSort fun x y => decide (key x.2 ≤ key y.2)).filter q := by
  have hperm :
      ((os.filter q).mergeSort fun x y => decide (key x.2 ≤ key y.2)).Perm
      ((os.mergeSort fun x y => decide (key x.2 ≤ key y.2)).filter q) :=
    (List.mergeSort_perm _ _).trans ((List.mergeSort_perm _ _).symm.filter q)
  exact hperm.eq_of_pairwise (fun x y _ _ hxy hyx => absurd hyx hxy.not_symm)
    (pairwise_sorted key (hpos.filter q)) ((pairwise_sorted key hpos).filter q)

/-- Dropping outcomes by what they are leaves the others with
their positions. -/
theorem outcomes_filter (f : α → Option β) (q : β → Bool) (l : List α) :
    outcomes (fun a => (f a).filter q) l = (outcomes f l).filter fun x =>
      q x.2 := by
  rw [outcomes, outcomes, List.filter_filterMap]
  refine List.filterMap_congr fun x _ => ?_
  cases hx : f x.1 with
  | none => rfl
  | some b => by_cases hq : q b = true <;> simp [hq, Option.filter]

/-- Dropping outcomes before the sort is dropping them after it. -/
theorem placements_filter (f : α → Option β) (key : β → κ) (q : β → Bool)
    (l : List α) :
    placements (fun a => (f a).filter q) key l
      = (placements f key l).filter fun x => q x.2 := by
  rw [placements, outcomes_filter]
  exact sorted_filter key (pairwise_outcomes f l) fun x => q x.2

/-- The elements of a list at the positions that are kept. -/
def selected (keep : Nat → Bool) (l : List α) : List α :=
  (l.zipIdx.filter fun x => keep x.2).map Prod.fst

/-- What is selected is in the list. -/
theorem mem_of_mem_selected {keep : Nat → Bool} {l : List α} {a : α}
    (h : a ∈ selected keep l) : a ∈ l := by
  obtain ⟨⟨b, i⟩, hb, rfl⟩ := List.mem_map.1 h
  exact (List.mem_zipIdx' (List.mem_of_mem_filter hb)).2 ▸
    List.getElem_mem _

/-- The outcomes of selected items are those of the selected positions. -/
theorem filterMap_selected (f : α → Option β) (keep : Nat → Bool)
    (l : List α) :
    (selected keep l).filterMap f
      = ((outcomes f l).filter fun x => keep x.1).map Prod.snd := by
  rw [selected, outcomes, List.filterMap_map, List.filterMap_filter,
    List.filter_filterMap, List.map_filterMap]
  refine List.filterMap_congr fun x _ => ?_
  cases hx : f x.1 <;> cases hkeep :
    keep x.2 <;> simp [hx, hkeep, Option.filter]

/-- Of the elements at the positions that are kept, the outcomes are placed as
they are among those of all. -/
theorem placements_selected (f : α → Option β) (key : β → κ)
    (keep : Nat → Bool) (l : List α) :
    (placements f key (selected keep l)).map Prod.snd
      = ((placements f key l).filter fun x => keep x.1).map Prod.snd := by
  rw [map_snd_placements, filterMap_selected, placements,
    ← sorted_filter key (pairwise_outcomes f l) fun x => keep x.1]
  symm
  exact List.map_mergeSort fun _ _ _ _ => rfl

/-- A comparison that agrees with the keys of some elements sorts them
by their keys. -/
theorem mergeSort_eq_of_key {key : β → κ} {precedes : β → β → Bool}
    {bs : List β}
    (h : ∀ a ∈ bs, ∀ b ∈ bs, precedes a b = true ↔ key a ≤ key b) :
    bs.mergeSort precedes = bs.mergeSort fun a b =>
      decide (key a ≤ key b) := by
  have hsort := List.map_mergeSort (f := id) (r := precedes)
    (s := fun a b => decide (key a ≤ key b)) (l := bs) fun a ha b hb => ?_
  · rwa [List.map_id, List.map_id] at hsort
  · rw [Bool.eq_iff_iff, decide_eq_true_eq]
    exact h a ha b hb

/-- The order in which outcomes come does not matter to a key that
tells them apart. -/
theorem mergeSort_eq_of_perm (key : β → κ) {bs bs' : List β}
    (hperm : bs.Perm bs')
    (hkey : ∀ a ∈ bs, ∀ b ∈ bs, key a = key b → a = b) :
    bs.mergeSort (fun a b => decide (key a ≤ key b))
      = bs'.mergeSort fun a b => decide (key a ≤ key b) := by
  have hsorted : ∀ l : List β,
      (l.mergeSort fun a b => decide (key a ≤ key b)).Pairwise fun a b =>
        key a ≤ key b := by
    intro l
    refine (List.pairwise_mergeSort ?_ ?_ l).imp of_decide_eq_true
    · simp only [decide_eq_true_eq]
      exact fun _ _ _ => le_trans
    · simp only [Bool.or_eq_true, decide_eq_true_eq]
      exact fun _ _ => le_total _ _
  have hsort := List.mergeSort_perm bs fun a b => decide (key a ≤ key b)
  have hsort' := List.mergeSort_perm bs' fun a b => decide (key a ≤ key b)
  refine (hsort.trans (hperm.trans hsort'.symm)).eq_of_pairwise ?_ (hsorted bs)
    (hsorted bs')
  intro a b ha hb hab hba
  exact hkey a (hsort.mem_iff.1 ha) b (hperm.mem_iff.2 (hsort'.mem_iff.1 hb))
    (le_antisymm hab hba)

/-- When nothing kept comes after something dropped, what is kept stands first
and what is dropped last. -/
theorem filter_append_filter_not {γ : Type} {q : γ → Bool} {l : List γ}
    (h : l.Pairwise fun x y => q y = true → q x = true) :
    l.filter q ++ l.filter (fun x => !q x) = l := by
  induction l with
  | nil => rfl
  | cons x l ih =>
      obtain ⟨hhead, htail⟩ := List.pairwise_cons.1 h
      by_cases hx : q x = true
      · simp [hx, ih htail]
      · have hnone : l.filter q = [] :=
          List.filter_eq_nil_iff.2 fun y hy hqy => hx (hhead y hy hqy)
        have hrest : l.filter (fun x => !q x) = l := by
          have hsplit := ih htail
          rwa [hnone, List.nil_append] at hsplit
        simp [hx, hnone, hrest]

-- ==================================================== by score and name

/-- What results are sorted by: the score, the greatest first,
then the name. -/
def standing (score : β → Float) (name : β → String) (b : β) :
    (WithBot Number.Place)ᵒᵈ ×ₗ String :=
  toLex (OrderDual.toDual (Number.line (score b)), name b)

variable {f : α → Option β} (score : β → Float) (name : β → String)

/-- On scores that are numbers, sorting by the comparison is sorting by
the standing. -/
theorem mergeSort_eq_placements {precedes : β → β → Bool} {l : List α}
    (hprecedes : ∀ a b, precedes a b
      = (score a > score b
        || (score a == score b && decide (name a ≤ name b))))
    (hnumber : ∀ a b, f a = some b → Number.IsNumber (score b)) :
    (l.filterMap f).mergeSort precedes
      = (placements f (standing score name) l).map Prod.snd := by
  have hmem : ∀ b ∈ l.filterMap f, Number.IsNumber (score b) := by
    intro b hb
    obtain ⟨a, -, ha⟩ := List.mem_filterMap.1 hb
    exact hnumber a b ha
  rw [map_snd_placements]
  refine mergeSort_eq_of_key fun a ha b hb => ?_
  rw [hprecedes]
  simp only [Bool.or_eq_true, Bool.and_eq_true, decide_eq_true_eq]
  rw [gt_iff_lt, (hmem b hb).lt_iff, (hmem a ha).beq_iff, standing, standing,
    Prod.Lex.toLex_le_toLex]
  simp only [OrderDual.toDual_lt_toDual, OrderDual.toDual_inj]

/-- The order of results by score, then name, then position. -/
theorem pairwise_standing {l : List α}
    (hnumber : ∀ a b, f a = some b → Number.IsNumber (score b)) :
    (placements f (standing score name) l).Pairwise fun x y =>
      score x.2 > score y.2
        ∨ (score x.2 == score y.2) = true
          ∧ (name x.2 < name y.2 ∨ name x.2 = name y.2 ∧ x.1 < y.1) := by
  refine (pairwise_placements f _ l).imp_of_mem fun {x y} hx hy hbefore => ?_
  obtain ⟨_, -, hfx⟩ := mem_placements_iff.1 hx
  obtain ⟨_, -, hfy⟩ := mem_placements_iff.1 hy
  rw [gt_iff_lt, (hnumber _ _ hfy).lt_iff, (hnumber _ _ hfx).beq_iff]
  simp only [Before, standing, Prod.Lex.toLex_lt_toLex,
    OrderDual.toDual_lt_toDual, OrderDual.toDual_inj, toLex_inj,
    Prod.mk.injEq] at hbefore
  tauto

/-- A floor keeps an initial segment: all that comes after it is
below the floor. -/
theorem placements_floor {l : List α}
    (hnumber : ∀ a b, f a = some b → Number.IsNumber (score b))
    {floor : Float} (hfloor : Number.IsNumber floor) :
    ∃ tail, placements f (standing score name) l
        = placements (fun a => (f a).filter (score · ≥ floor))
          (standing score name) l ++ tail
      ∧ ∀ x ∈ tail, score x.2 < floor := by
  have hdown : (placements f (standing score name) l).Pairwise fun x y =>
      decide (score y.2 ≥ floor) = true →
        decide (score x.2 ≥ floor) = true := by
    refine (pairwise_standing score name hnumber).imp fun {x y} hxy hy => ?_
    refine decide_eq_true (Number.le_trans (of_decide_eq_true hy) ?_)
    rcases hxy with hgt | ⟨heq, -⟩
    · exact Number.le_of_lt hgt
    · exact Number.ge_of_beq heq
  rw [placements_filter]
  refine ⟨_, (filter_append_filter_not hdown).symm, fun x hx => ?_⟩
  obtain ⟨hmem, hdropped⟩ := List.mem_filter.1 hx
  obtain ⟨a, -, ha⟩ := mem_placements_iff.1 hmem
  refine Number.lt_of_not_le hfloor (hnumber a x.2 ha) fun hle => ?_
  rw [decide_eq_true hle] at hdropped
  cases hdropped

end GitPersona.Sorting
