/-
Maps as what they map. A lookup finds exactly the pairs of the list
(`get?_eq_some_iff`), because no key occurs twice, so the order in which
the keys came cannot be seen in it: maps with the same pairs in key
order answer every lookup alike (`get?_eq_of_sorted_eq`), and maps that
answer every lookup alike have the same pairs in key order
(`sorted_eq_iff`). Setting a key changes what that key is looked up as
and nothing else, so in the map that a list of pairs describes each key
has the value of its last pair (`get?_ofList_eq_some_iff`), and pairs
with distinct keys are all kept (`entries_ofList`).
-/
import GitPersona.Bindings
import Mathlib.Data.List.Induction

namespace GitPersona.Bindings

/-- Among pairs with distinct keys, a lookup finds the pair that is there. -/
theorem lookup_eq_some_iff {es : List (String × String)}
    (h : (es.map Prod.fst).Nodup)
    {key value : String} : es.lookup key = some value ↔ (key, value) ∈ es := by
  induction es with
  | nil => simp
  | cons e es ih =>
      obtain ⟨k, v⟩ := e
      rw [List.map_cons, List.nodup_cons] at h
      rw [List.mem_cons, Prod.mk.injEq]
      by_cases hk : key = k
      · subst hk
        have hrest : (key, value) ∉ es :=
          fun hmem => h.1 (List.mem_map.2 ⟨_, hmem, rfl⟩)
        rw [List.lookup_cons_self, Option.some.injEq]
        constructor
        · intro hv
          exact Or.inl ⟨rfl, hv.symm⟩
        · intro hor
          rcases hor with ⟨-, hv⟩ | hmem
          · exact hv.symm
          · exact absurd hmem hrest
      · have hne : (key == k) = false := beq_false_of_ne hk
        rw [List.lookup_cons, hne, ih h.2]
        constructor
        · intro hmem
          exact Or.inr hmem
        · intro hor
          rcases hor with ⟨hkey, -⟩ | hmem
          · exact absurd hkey hk
          · exact hmem

/-- A key has a value exactly when the two are a pair of the map. -/
theorem get?_eq_some_iff {b : Bindings} {key value : String} :
    b.get? key = some value ↔ (key, value) ∈ b.entries :=
  lookup_eq_some_iff b.nodup

/-- The map that pairs describe has no keys but theirs. -/
theorem mem_keys_ofList {es : List (String × String)} {key : String}
    (h : key ∈ (ofList es).entries.map Prod.fst) : key ∈ es.map Prod.fst := by
  have hfold : ∀ (es : List (String × String)) (b : Bindings),
      key ∈ (es.foldl (fun b e => b.insert e.1 e.2) b).entries.map Prod.fst →
        key ∈ b.entries.map Prod.fst ∨ key ∈ es.map Prod.fst := by
    intro es
    induction es with
    | nil => exact fun b hb => Or.inl hb
    | cons e es ih =>
        intro b hb
        rw [List.map_cons, List.mem_cons]
        rcases ih (b.insert e.1 e.2) hb with hput | hes
        · rcases mem_keys_put hput with heq | hmem
          · exact Or.inr (Or.inl heq)
          · exact Or.inl hmem
        · exact Or.inr (Or.inr hes)
  rcases hfold es empty h with hnil | hes
  · cases hnil
  · exact hes

/-- Sorting leaves the pairs as they are, in another order. -/
theorem perm_sorted (b : Bindings) : b.sorted.Perm b.entries :=
  List.mergeSort_perm _ _

/-- The sorted pairs are those of the map. -/
theorem mem_sorted_iff {b : Bindings} {key value : String} :
    (key, value) ∈ b.sorted ↔ b.get? key = some value :=
  b.perm_sorted.mem_iff.trans get?_eq_some_iff.symm

/-- The order in which a map was filled does not show in a lookup. -/
theorem get?_eq_of_perm {b b' : Bindings} (h : b.entries.Perm b'.entries)
    (key : String) :
    b.get? key = b'.get? key := by
  apply Option.ext
  intro value
  rw [get?_eq_some_iff, get?_eq_some_iff]
  exact h.mem_iff

/-- Maps whose sorted pairs are equal map alike. -/
theorem get?_eq_of_sorted_eq {b b' : Bindings} (h : b.sorted = b'.sorted)
    (key : String) :
    b.get? key = b'.get? key := by
  apply get?_eq_of_perm
  have hb := b.perm_sorted
  rw [h] at hb
  exact hb.symm.trans b'.perm_sorted

-- =============================================================== setting keys

variable {b : Bindings} {es : List (String × String)} {k key value : String}

/-- A key that was put is found with its value. -/
theorem lookup_put_self : (put key value es).lookup key = some value := by
  induction es with
  | nil => exact List.lookup_cons_self
  | cons e es ih =>
      obtain ⟨k, v⟩ := e
      unfold put
      split
      · next hk =>
        rw [hk, List.lookup_cons_self]
      · next hk =>
        rw [List.lookup_cons, beq_false_of_ne (Ne.symm hk)]
        exact ih

/-- Putting a key leaves the others alone. -/
theorem lookup_put_of_ne (h : k ≠ key) :
    (put key value es).lookup k = es.lookup k := by
  induction es with
  | nil =>
      show List.lookup k [(key, value)] = none
      rw [List.lookup_cons, beq_false_of_ne h]
      rfl
  | cons e es ih =>
      obtain ⟨k', v⟩ := e
      unfold put
      split
      · next hk' =>
        subst hk'
        rw [List.lookup_cons, List.lookup_cons, beq_false_of_ne h]
      · rw [List.lookup_cons, List.lookup_cons, ih]

/-- A key that was inserted has its value. -/
theorem get?_insert_self : (b.insert key value).get? key = some value :=
  lookup_put_self

/-- Inserting a key leaves the others alone. -/
theorem get?_insert_of_ne (h : k ≠ key) :
    (b.insert key value).get? k = b.get? k :=
  lookup_put_of_ne h

/-- The last pair of a list is inserted last. -/
theorem ofList_concat (es : List (String × String)) (e : String × String) :
    ofList (es ++ [e]) = (ofList es).insert e.1 e.2 := by
  unfold ofList
  rw [List.foldl_append, List.foldl_cons, List.foldl_nil]

/-- The last pair for a key gives its value. -/
theorem get?_ofList : (ofList es).get? key = es.reverse.lookup key := by
  induction es using List.reverseRecOn with
  | nil => rfl
  | append_singleton es e ih =>
      obtain ⟨k, v⟩ := e
      rw [ofList_concat, List.reverse_concat]
      by_cases hk : key = k
      · rw [hk, get?_insert_self, List.lookup_cons_self]
      · rw [get?_insert_of_ne hk, List.lookup_cons, beq_false_of_ne hk]
        exact ih

/-- Of several pairs for a key the last one counts. -/
theorem get?_ofList_eq_some_iff : (ofList es).get? key = some value ↔
    ∃ before after, es = before ++ (key, value) :: after
      ∧ ∀ e ∈ after, e.1 ≠ key := by
  rw [get?_ofList, List.lookup_eq_some_iff]
  constructor
  · rintro ⟨after, before, hsplit, hafter⟩
    refine ⟨before.reverse, after.reverse, ?_, fun e he => ?_⟩
    · rw [← List.reverse_reverse es, hsplit]
      simp
    · exact Ne.symm (bne_iff_ne.1 (hafter e (List.mem_reverse.1 he)))
  · rintro ⟨before, after, rfl, hafter⟩
    refine ⟨after.reverse, before.reverse, by simp, fun e he => ?_⟩
    exact bne_iff_ne.2 (Ne.symm (hafter e (List.mem_reverse.1 he)))

/-- A key has no value exactly when no pair is for it. -/
theorem get?_ofList_eq_none_iff :
    (ofList es).get? key = none ↔ ∀ e ∈ es, e.1 ≠ key := by
  rw [get?_ofList, List.lookup_eq_none_iff]
  constructor
  · intro h e he
    exact Ne.symm (bne_iff_ne.1 (h e (List.mem_reverse.2 he)))
  · intro h e he
    exact bne_iff_ne.2 (Ne.symm (h e (List.mem_reverse.1 he)))

-- ============================================================= distinct keys

/-- A new key comes last. -/
theorem put_of_notMem (h : key ∉ es.map Prod.fst) :
    put key value es = es ++ [(key, value)] := by
  induction es with
  | nil => rfl
  | cons e es ih =>
      obtain ⟨k, v⟩ := e
      rw [List.map_cons, List.mem_cons, not_or] at h
      unfold put
      rw [if_neg (Ne.symm h.1), ih h.2, List.cons_append]

/-- Pairs with distinct keys are kept as they are. -/
theorem entries_ofList (h : (es.map Prod.fst).Nodup) :
    (ofList es).entries = es := by
  induction es using List.reverseRecOn with
  | nil => rfl
  | append_singleton es e ih =>
      obtain ⟨k, v⟩ := e
      rw [List.map_append, List.nodup_append] at h
      obtain ⟨hes, -, hapart⟩ := h
      have hnew : k ∉ es.map Prod.fst :=
        fun hk => hapart k hk k List.mem_cons_self rfl
      rw [ofList_concat]
      show put k v (ofList es).entries = _
      rw [ih hes, put_of_notMem hnew]

/-- Setting a key that is passed over changes nothing of what is taken
from the pairs. -/
theorem filterMap_put {α : Type} {f : String × String → Option α}
    (h : ∀ v, f (key, v) = none) :
    (put key value es).filterMap f = es.filterMap f := by
  induction es with
  | nil =>
      show [(key, value)].filterMap f = _
      rw [List.filterMap_cons_none (h value)]
  | cons e es ih =>
      obtain ⟨k, v⟩ := e
      unfold put
      split
      · next hk =>
        subst hk
        rw [List.filterMap_cons_none (h value), List.filterMap_cons_none (h v)]
      · rw [List.filterMap_cons, List.filterMap_cons, ih]

-- =============================================================== key order

/-- The sorted pairs ascend by their keys. -/
theorem pairwise_sorted (b : Bindings) :
    b.sorted.Pairwise fun x y => x.1 ≤ y.1 := by
  have htrans : ∀ x y z : String × String, decide (x.1 ≤ y.1) = true →
      decide (y.1 ≤ z.1) = true → decide (x.1 ≤ z.1) = true := by
    intro x y z hxy hyz
    exact decide_eq_true (String.le_trans (of_decide_eq_true hxy)
      (of_decide_eq_true hyz))
  have htotal : ∀ x y : String × String,
      (decide (x.1 ≤ y.1) || decide (y.1 ≤ x.1)) = true := by
    intro x y
    simpa using String.le_total x.1 y.1
  exact (List.pairwise_mergeSort htrans htotal b.entries).imp of_decide_eq_true

/-- The key order is strict, since no key occurs twice. -/
theorem pairwise_sorted_lt (b : Bindings) :
    b.sorted.Pairwise fun x y => x.1 < y.1 := by
  have hkeys : b.sorted.Pairwise fun x y => x.1 ≠ y.1 :=
    List.pairwise_map.1 ((b.perm_sorted.map Prod.fst).nodup_iff.2 b.nodup)
  refine (b.pairwise_sorted.and hkeys).imp ?_
  rintro x y ⟨hle, hne⟩
  exact String.not_le.1 fun hge => hne (String.le_antisymm hle hge)

/-- Of the same pairs there is one list in key order, since no key
occurs twice. -/
theorem sorted_eq_of_perm {b b' : Bindings} (h : b.entries.Perm b'.entries) :
    b.sorted = b'.sorted := by
  have hperm : b.sorted.Perm b'.sorted :=
    b.perm_sorted.trans (h.trans b'.perm_sorted.symm)
  refine hperm.eq_of_pairwise ?_ b.pairwise_sorted b'.pairwise_sorted
  intro x y hx hy hxy hyx
  have hkey : x.1 = y.1 := String.le_antisymm hxy hyx
  have hxvalue : b.get? x.1 = some x.2 := mem_sorted_iff.1 hx
  have hyvalue : b.get? y.1 = some y.2 := mem_sorted_iff.1 (hperm.mem_iff.2 hy)
  rw [hkey, hyvalue] at hxvalue
  exact Prod.ext hkey (Option.some.inj hxvalue).symm

/-- Maps that map alike hold the same pairs. -/
theorem perm_of_get?_eq {b b' : Bindings}
    (h : ∀ key, b.get? key = b'.get? key) :
    b.entries.Perm b'.entries := by
  have hnodup : ∀ m : Bindings, m.entries.Nodup := fun m =>
    (List.pairwise_map.1 m.nodup).imp fun hne heq =>
      hne (congrArg Prod.fst heq)
  refine (List.perm_ext_iff_of_nodup (hnodup b) (hnodup b')).2 fun e => ?_
  rw [← get?_eq_some_iff, ← get?_eq_some_iff, h]

/-- Two maps map alike exactly when they have the same pairs in key order. -/
theorem sorted_eq_iff {b b' : Bindings} :
    b.sorted = b'.sorted ↔ ∀ key, b.get? key = b'.get? key :=
  ⟨get?_eq_of_sorted_eq, fun h => sorted_eq_of_perm (perm_of_get?_eq h)⟩

end GitPersona.Bindings
