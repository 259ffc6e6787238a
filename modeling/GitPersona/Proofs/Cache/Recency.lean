/-
Reads answered by the last uses of keys. Requests served one after
another leave a history, latest event first, and from the history alone
one can tell what a key was last given and until when it counts
(`stored?`), and which other keys were used since it was last used
(`usedSince`). `served_by_last_use` ties the answers to it: nothing but
what was last written and is not due is ever read, and it is read as
long as fewer other keys were used since than the cache has room for.

# The invariant

`Tracks` says where a history has brought a cache. An entry is what its
key was last given. An entry that stands further to the end has been
used since the ones before it, so the first entry of a full cache has as
many rivals as the cache has other entries, and it is the one that a new
key displaces. Hence a key that was written and is not there is due by
now or has as many rivals as the cache has room for. Hits and writes
change a cache in one and the same way (`Tracks.use`): some entries go,
and the entry of the used key comes last.
-/
import GitPersona.Proofs.Cache
import GitPersona.Proofs.Number.Order

namespace GitPersona.Cache

open Number (IsNumber)

variable {κ ν : Type} [DecidableEq κ]

-- ============================================================== histories

/-- What can be asked of a cache. -/
inductive Request (κ ν : Type)
  | get (key : κ)
  | set (key : κ) (value : ν) (lifetime : Option Float)
  | clear

/-- A request, the moment at which it was served, and the value that was
read, if any. -/
structure Event (κ ν : Type) where
  now : Float
  request : Request κ ν
  answer : Option ν

/-- Serves a request at a moment. -/
def serve (c : Cache κ ν) (now : Float) :
    Request κ ν → Except Fault (Option ν × Cache κ ν)
  | .get key => .ok (c.get now key)
  | .set key value lifetime => (c.set now key value lifetime).map fun c' =>
      (none, c')
  | .clear => .ok (none, c.clear)

/-- Serves requests, each at its moment, and adds what happens to
the history. -/
def run (c : Cache κ ν) (past : List (Event κ ν)) :
    List (Float × Request κ ν) → Except Fault (Cache κ ν × List (Event κ ν))
  | [] => .ok (c, past)
  | (now, request) :: rest =>
    match c.serve now request with
    | .ok (answer, c') => c'.run (⟨now, request, answer⟩ :: past) rest
    | .error f => .error f

/-- What a key was last given since the cache was last cleared, and the moment
from which that no longer counts. -/
def stored? (lifetime : Float) (key : κ) :
    List (Event κ ν) → Option (ν × Float)
  | [] => none
  | e :: past =>
    match e.request with
    | .get _ => stored? lifetime key past
    | .set k value own =>
      if k = key then some (value, e.now + own.getD lifetime)
        else stored? lifetime key past
    | .clear => none

/-- The key that an event uses: a key that is written, or read with success. -/
def Event.usedKey? (e : Event κ ν) : Option κ :=
  match e.request with
  | .get key => if e.answer.isSome then some key else none
  | .set key _ _ => some key
  | .clear => none

/-- The keys used since a key was last used. -/
def usedSince (key : κ) (past : List (Event κ ν)) : Finset κ :=
  ((past.filterMap Event.usedKey?).takeWhile (· ≠ key)).toFinset

variable {past : List (Event κ ν)} {ev : Event κ ν} {key other : κ}

theorem usedSince_cons_of_none (h : ev.usedKey? = none) :
    usedSince key (ev :: past) = usedSince key past := by
  unfold usedSince
  rw [List.filterMap_cons_none h]

theorem usedSince_cons_of_ne (h : ev.usedKey? = some other)
    (hne : other ≠ key) :
    usedSince key (ev :: past) = insert other (usedSince key past) := by
  unfold usedSince
  rw [List.filterMap_cons_some h,
    List.takeWhile_cons_of_pos (by simpa using hne), List.toFinset_cons]

-- ============================================================== invariant

/-- The history has brought a cache of this lifetime and capacity
to this state. -/
structure Tracks (lifetime : Float) (capacity : Int) (past : List (Event κ ν))
    (c : Cache κ ν) :
    Prop where
  lifetime_eq : c.lifetime = lifetime
  capacity_eq : c.capacity = capacity
  nodup : (c.entries.map Entry.key).Nodup
  length_le : c.entries.length ≤ capacity
  /-- An entry is what its key was last given. -/
  stored : ∀ e ∈ c.entries, stored? lifetime e.key past
    = some (e.value, e.expiresAt)
  /-- An entry that stands further to the end has been used since. -/
  recent : c.entries.Pairwise fun e e' => e'.key ∈ usedSince e.key past
  /-- A key that was written is there, or due, or displaced. -/
  kept : ∀ key value expiry, stored? lifetime key past = some (value, expiry) →
    (∃ e ∈ c.entries, e.key = key) ∨ (∃ x ∈ past, expiry ≤ x.now)
      ∨ capacity ≤ (usedSince key past).card

variable {lifetime : Float} {capacity : Int} {c : Cache κ ν} {e : Entry κ ν}

theorem tracks_new (hcap : 1 ≤ capacity) :
    Tracks lifetime capacity [] ({ lifetime, capacity } : Cache κ ν) where
  lifetime_eq := rfl
  capacity_eq := rfl
  nodup := List.nodup_nil
  length_le := by
    rw [List.length_nil]
    omega
  stored := fun _ he => absurd he List.not_mem_nil
  recent := List.Pairwise.nil
  kept := fun _ _ _ h => absurd h (by simp [stored?])

namespace Tracks

theorem eq_of_mem (h : Tracks lifetime capacity past c) (he : e ∈ c.entries)
    {e' : Entry κ ν}
    (he' : e' ∈ c.entries) (hkey : e.key = e'.key) : e = e' :=
  List.inj_on_of_nodup_map h.nodup he he' hkey

/-- The first entry of a full cache has as many rivals as there are
other entries. -/
theorem card_usedSince_first (h : Tracks lifetime capacity past c)
    {first : Entry κ ν}
    {rest : List (Entry κ ν)} (hentries : c.entries = first :: rest)
    (hnew : c.find? key = none) :
    c.entries.length ≤ (insert key (usedSince first.key past)).card := by
  have hnodup := h.nodup
  have hrecent := h.recent
  rw [hentries, List.map_cons, List.nodup_cons] at hnodup
  rw [hentries, List.pairwise_cons] at hrecent
  have hkey : key ∉ rest.map Entry.key := by
    intro hmem
    obtain ⟨e, he, rfl⟩ := List.mem_map.1 hmem
    exact find?_eq_none_iff.1 hnew e (hentries ▸ List.mem_cons_of_mem _ he) rfl
  have hsub : (key :: rest.map Entry.key).toFinset
      ⊆ insert key (usedSince first.key past) := by
    rw [List.toFinset_cons]
    refine Finset.insert_subset_insert key fun k hk => ?_
    obtain ⟨e, he, rfl⟩ := List.mem_map.1 (List.mem_toFinset.1 hk)
    exact hrecent.1 e he
  calc c.entries.length
    = (key :: rest.map Entry.key).length := by simp [hentries]
    _ = (key :: rest.map Entry.key).toFinset.card :=
      (List.toFinset_card_of_nodup (List.nodup_cons.2 ⟨hkey, hnodup.2⟩)).symm
    _ ≤ (insert key (usedSince first.key past)).card :=
      Finset.card_le_card hsub

-- ================================================================== steps

/-- Entries may go when nothing is used, provided that they are due. -/
theorem drop (h : Tracks lifetime capacity past c) {entries : List (Entry κ ν)}
    (hused : ev.usedKey? = none)
    (hstored : ∀ k, stored? lifetime k (ev :: past) = stored? lifetime k past)
    (hsub : entries.Sublist c.entries)
    (hdue : ∀ e ∈ c.entries, e ∈ entries ∨ e.expiresAt ≤ ev.now) :
    Tracks lifetime capacity (ev :: past) { c with entries } where
  lifetime_eq := h.lifetime_eq
  capacity_eq := h.capacity_eq
  nodup := h.nodup.sublist (hsub.map _)
  length_le := le_trans (Int.ofNat_le.2 hsub.length_le) h.length_le
  stored := by
    intro e he
    rw [hstored]
    exact h.stored e (hsub.subset he)
  recent := by
    refine (h.recent.sublist hsub).imp fun {e e'} hmem => ?_
    rw [usedSince_cons_of_none hused]
    exact hmem
  kept := by
    intro key value expiry hkey
    rw [hstored] at hkey
    rw [usedSince_cons_of_none hused]
    rcases h.kept key value expiry hkey with
      ⟨e, he, rfl⟩ | ⟨x, hx, hle⟩ | hcard
    · rcases hdue e he with hmem | hle
      · exact Or.inl ⟨e, hmem, rfl⟩
      · have hvalue := (h.stored e he).symm.trans hkey
        cases hvalue
        exact Or.inr (Or.inl ⟨ev, List.mem_cons_self, hle⟩)
    · exact Or.inr (Or.inl ⟨x, List.mem_cons_of_mem _ hx, hle⟩)
    · exact Or.inr (Or.inr hcard)

/-- A key is used: its entry comes last, after some of the entries of
other keys. An entry that makes room has as many rivals by now as the
cache has room for. -/
theorem use (h : Tracks lifetime capacity past c) {room : List (Entry κ ν)}
    (hused : ev.usedKey? = some e.key)
    (hothers : ∀ k, e.key ≠ k →
        stored? lifetime k (ev :: past) = stored? lifetime k past)
    (hself : stored? lifetime e.key (ev :: past) = some (e.value, e.expiresAt))
    (hsub : room.Sublist c.entries) (hne : ∀ x ∈ room, x.key ≠ e.key)
    (hlength : room.length < capacity)
    (hroom : ∀ x ∈ c.entries, x.key ≠ e.key →
      x ∈ room ∨ capacity ≤ (insert e.key (usedSince x.key past)).card) :
    Tracks lifetime capacity (ev :: past) { c with entries := room ++ [e] }
      where
  lifetime_eq := h.lifetime_eq
  capacity_eq := h.capacity_eq
  nodup := by
    rw [List.map_append, List.map_cons, List.map_nil, ← List.concat_eq_append,
      List.nodup_concat]
    refine ⟨fun hmem => ?_, h.nodup.sublist (hsub.map _)⟩
    obtain ⟨x, hx, hkey⟩ := List.mem_map.1 hmem
    exact hne x hx hkey
  length_le := by
    rw [List.length_append, List.length_singleton]
    omega
  stored := by
    intro x hx
    rcases List.mem_append.1 hx with hmem | hmem
    · rw [hothers x.key (hne x hmem).symm]
      exact h.stored x (hsub.subset hmem)
    · rw [List.mem_singleton.1 hmem]
      exact hself
  recent := by
    refine List.pairwise_append.2
      ⟨?_, List.pairwise_singleton _ _, fun x hx y hy => ?_⟩
    · refine (h.recent.sublist hsub).imp_of_mem fun {x y} hx _ hmem => ?_
      rw [usedSince_cons_of_ne hused (hne x hx).symm]
      exact Finset.mem_insert_of_mem hmem
    · rw [List.mem_singleton.1 hy, usedSince_cons_of_ne hused (hne x hx).symm]
      exact Finset.mem_insert_self _ _
  kept := by
    intro key value expiry hkey
    by_cases heq : e.key = key
    · exact Or.inl ⟨e, by simp, heq⟩
    · -- an entry that made room has its rivals, all others keep theirs
      rw [hothers key heq] at hkey
      rw [usedSince_cons_of_ne hused heq]
      rcases h.kept key value expiry hkey with
        ⟨x, hx, rfl⟩ | ⟨x, hx, hle⟩ | hcard
      · rcases hroom x hx (Ne.symm heq) with hmem | hcard
        · exact Or.inl ⟨x, List.mem_append_left _ hmem, rfl⟩
        · exact Or.inr (Or.inr hcard)
      · exact Or.inr (Or.inl ⟨x, List.mem_cons_of_mem _ hx, hle⟩)
      · have hgrow := Finset.card_le_card
          (Finset.subset_insert e.key (usedSince key past))
        exact Or.inr (Or.inr (by omega))

theorem get (h : Tracks lifetime capacity past c) (now : Float) (key : κ) :
    Tracks lifetime capacity (⟨now, .get key, (c.get now key).1⟩ :: past)
      (c.get now key).2 := by
  rcases get_cases c now key with
    ⟨-, hget⟩ | ⟨e, hfind, hdue, hget⟩ | ⟨e, hfind, -, hget⟩
  · rw [hget]
    exact h.drop rfl (fun _ => rfl) (List.Sublist.refl _) fun e he => Or.inl he
  · rw [hget]
    obtain ⟨hmem, hkey⟩ := mem_of_find? hfind
    refine h.drop rfl (fun _ => rfl) (c.others_sublist key) fun e' he' => ?_
    by_cases heq : e'.key = key
    · rw [h.eq_of_mem he' hmem (heq.trans hkey.symm)]
      exact Or.inr hdue
    · exact Or.inl (mem_others_iff.2 ⟨he', heq⟩)
  · rw [hget]
    obtain ⟨hmem, rfl⟩ := mem_of_find? hfind
    have hshort := length_others_lt hfind
    have hfits := h.length_le
    exact h.use rfl (fun _ _ => rfl) (h.stored e hmem) (c.others_sublist e.key)
      (fun x hx => (mem_others_iff.1 hx).2) (by omega)
      fun x hx hne => Or.inl (mem_others_iff.2 ⟨hx, hne⟩)

theorem set (h : Tracks lifetime capacity past c) (hcap : 1 ≤ capacity)
    (now : Float) (key : κ)
    (value : ν) (own : Option Float) :
    ∃ c', c.set now key value own = .ok c'
      ∧ Tracks lifetime capacity (⟨now, .set key value own, none⟩ :: past)
        c' := by
  -- the three ways of making room differ in what goes and in why the rest is
  -- short enough
  suffices hroom : ∃ room, c.roomFor key = .ok room ∧ room.Sublist c.entries
      ∧ (∀ x ∈ room, x.key ≠ key) ∧ room.length < capacity
      ∧ ∀ x ∈ c.entries, x.key ≠ key →
          x ∈ room ∨ capacity ≤ (insert key (usedSince x.key past)).card by
    obtain ⟨room, hroom, hsub, hne, hlength, hrivals⟩ := hroom
    refine ⟨_, by rw [Cache.set, hroom]; rfl, ?_⟩
    refine h.use (e := ⟨key, now + own.getD c.lifetime, value⟩) rfl
      (fun k hk => if_neg hk) ?_ hsub
      hne hlength hrivals
    rw [h.lifetime_eq]
    exact if_pos rfl
  have hfits := h.length_le
  have hcapacity := h.capacity_eq
  rcases c.roomFor_cases key (hcapacity ▸ hcap) with
    ⟨e, hfind, hroom⟩ | ⟨hnew, hfree, hroom⟩
    | ⟨first, rest, hnew, hfull, hentries, hroom⟩
  · have hshort := length_others_lt hfind
    exact ⟨_, hroom, c.others_sublist key,
      fun x hx => (mem_others_iff.1 hx).2, by omega,
      fun x hx hne => Or.inl (mem_others_iff.2 ⟨hx, hne⟩)⟩
  · exact ⟨_, hroom, List.Sublist.refl _, find?_eq_none_iff.1 hnew, by omega,
      fun x hx _ => Or.inl hx⟩
  · have hrivals := h.card_usedSince_first hentries hnew
    rw [hentries, List.length_cons] at hfull hfits hrivals
    refine ⟨rest, hroom, hentries ▸ List.sublist_cons_self first rest,
      fun x hx => ?_, by omega,
      fun x hx _ => ?_⟩
    · exact find?_eq_none_iff.1 hnew x (hentries ▸ List.mem_cons_of_mem _ hx)
    · rw [hentries] at hx
      rcases List.mem_cons.1 hx with rfl | hx
      · exact Or.inr (by omega)
      · exact Or.inl hx

theorem clear (h : Tracks lifetime capacity past c) (hcap : 1 ≤ capacity)
    (now : Float) :
    Tracks lifetime capacity (⟨now, .clear, none⟩ :: past) c.clear where
  lifetime_eq := h.lifetime_eq
  capacity_eq := h.capacity_eq
  nodup := List.nodup_nil
  length_le := by
    show (([] : List (Entry κ ν)).length : Int) ≤ capacity
    rw [List.length_nil]
    omega
  stored := fun _ he => absurd he List.not_mem_nil
  recent := List.Pairwise.nil
  kept := fun _ _ _ hkey => absurd hkey (by simp [stored?])

/-- Every request is served, and the history goes on tracking the cache. -/
theorem serve (h : Tracks lifetime capacity past c) (hcap : 1 ≤ capacity)
    (now : Float)
    (request : Request κ ν) :
    ∃ answer c', c.serve now request = .ok (answer, c')
      ∧ Tracks lifetime capacity (⟨now, request, answer⟩ :: past) c' := by
  cases request with
  | get key => exact ⟨_, _, rfl, h.get now key⟩
  | set key value own =>
      obtain ⟨c', hset, htracks⟩ := h.set hcap now key value own
      exact ⟨none, c', by rw [Cache.serve, hset]; rfl, htracks⟩
  | clear => exact ⟨none, _, rfl, h.clear hcap now⟩

-- =================================================================== runs

/-- Every run of requests is served to its end, at the moments of
the requests. -/
theorem run (h : Tracks lifetime capacity past c) (hcap : 1 ≤ capacity)
    (requests : List (Float × Request κ ν)) :
    ∃ c' past', c.run past requests = .ok (c', past')
      ∧ Tracks lifetime capacity past' c'
      ∧ ∀ x ∈ past', x ∈ past ∨ x.now ∈ requests.map Prod.fst := by
  induction requests generalizing past c with
  | nil => exact ⟨c, past, rfl, h, fun x hx => Or.inl hx⟩
  | cons first rest ih =>
      obtain ⟨now, request⟩ := first
      obtain ⟨answer, c₁, hserve, h₁⟩ := h.serve hcap now request
      obtain ⟨c', past', hrun, h', htimes⟩ := ih h₁
      refine ⟨c', past', by rw [Cache.run, hserve]; exact hrun, h',
        fun x hx => ?_⟩
      rw [List.map_cons]
      rcases htimes x hx with hmem | hmem
      · rcases List.mem_cons.1 hmem with rfl | hmem
        · exact Or.inr List.mem_cons_self
        · exact Or.inl hmem
      · exact Or.inr (List.mem_cons_of_mem _ hmem)

-- ================================================================== reads

/-- What is read is what the key was last given, and it is not due. -/
theorem stored_of_get (h : Tracks lifetime capacity past c) {now : Float}
    {value : ν}
    (hget : (c.get now key).1 = some value) :
    ∃ expiry, stored? lifetime key past = some (value, expiry)
      ∧ ¬expiry ≤ now := by
  rcases get_cases c now key with
    ⟨-, hread⟩ | ⟨e, -, -, hread⟩ | ⟨e, hfind, hdue, hread⟩
  · rw [hread] at hget
    cases hget
  · rw [hread] at hget
    cases hget
  · rw [hread] at hget
    obtain ⟨hmem, rfl⟩ := mem_of_find? hfind
    cases hget
    exact ⟨e.expiresAt, h.stored e hmem, hdue⟩

/-- What the key was last given is read while it counts and the key
has few rivals. -/
theorem get_of_stored (h : Tracks lifetime capacity past c)
    {now expiry : Float} {value : ν}
    (hstored : stored? lifetime key past = some (value, expiry))
    (hlater : now < expiry)
    (hclock : ∀ x ∈ past, x.now ≤ now)
    (hfew : (usedSince key past).card < capacity) :
    (c.get now key).1 = some value := by
  have hdue : ¬expiry ≤ now := Number.not_le_of_lt hlater
  have hpresent : ∃ e ∈ c.entries, e.key = key := by
    rcases h.kept key value expiry hstored with hmem | ⟨x, hx, hle⟩ | hcard
    · exact hmem
    · exact absurd (Number.le_trans hle (hclock x hx)) hdue
    · omega
  obtain ⟨e, he, hkey⟩ := hpresent
  rcases get_cases c now key with
    ⟨hnone, -⟩ | ⟨e', hfind, hle, -⟩ | ⟨e', hfind, -, hread⟩
  · exact absurd hkey (find?_eq_none_iff.1 hnone e he)
  · obtain ⟨hmem, rfl⟩ := mem_of_find? hfind
    cases (h.stored e' hmem).symm.trans hstored
    exact absurd hle hdue
  · obtain ⟨hmem, rfl⟩ := mem_of_find? hfind
    cases (h.stored e' hmem).symm.trans hstored
    rw [hread]

end Tracks

-- =============================================================== main result

/-- Requests at moments that never go back are all served; keys stay distinct
and the capacity is never exceeded. The next read answers nothing but what the
key was last given, not due by then, and answers that whenever it counts for
longer and fewer other keys than the capacity were used since the key was. -/
theorem served_by_last_use (lifetime : Float) {capacity : Int}
    (hcap : 1 ≤ capacity)
    (requests : List (Float × Request κ ν)) (now : Float)
    (hclock : (requests.map Prod.fst ++ [now]).Pairwise (· ≤ ·)) :
    ∃ c past, run { lifetime, capacity } [] requests = .ok (c, past)
      ∧ (c.entries.map Entry.key).Nodup ∧ c.size ≤ capacity
      ∧ ∀ key value,
          ((c.get now key).1 = some value →
            ∃ expiry, stored? lifetime key past = some (value, expiry)
              ∧ (now < expiry ∨ expiry.isNaN = true))
          ∧ ∀ expiry, stored? lifetime key past = some (value, expiry) →
            now < expiry →
              (usedSince key past).card < capacity →
                (c.get now key).1 = some value := by
  obtain ⟨c, past, hrun, h, htimes⟩ := (tracks_new hcap).run hcap requests
  have hbefore : ∀ x ∈ past, x.now ≤ now := by
    intro x hx
    rcases htimes x hx with hnil | hmem
    · cases hnil
    · exact (List.pairwise_append.1 hclock).2.2 _ hmem _ List.mem_cons_self
  refine ⟨c, past, hrun, h.nodup, h.length_le,
    fun key value => ⟨fun hget => ?_, ?_⟩⟩
  · obtain ⟨expiry, hstored, hdue⟩ := h.stored_of_get hget
    -- something was written, so there is a reading of the clock that `now`
    -- compares with
    have hnow : IsNumber now := by
      cases past with
      | nil => cases hstored
      | cons x past =>
          exact (Number.isNumber_of_le (hbefore x List.mem_cons_self)).2
    exact ⟨expiry, hstored, Number.lt_or_isNaN_of_not_le hnow hdue⟩
  · intro expiry hstored hlater hfew
    exact h.get_of_stored hstored hlater hbefore hfew

/-- Of three keys written to a cache for two, the one that was read
meanwhile stays. -/
theorem served_third_key :
    (1 : Int) ≤ 2 ∧ (([0.0, 0.0, 1.0, 1.0] : List Float) ++ [1.0]).Pairwise
    (· ≤ ·)
      ∧ ∃ (c : Cache String Nat) (past : List (Event String Nat)),
        run { lifetime := 60.0, capacity := 2 } []
            [(0.0, .set "a" 1 none), (0.0, .set "b" 2 none), (1.0, .get "a"),
              (1.0, .set "c" 3 none)] = .ok (c, past)
          ∧ c.entries.map Entry.key = ["a", "c"]
          ∧ (c.get 1.0 "a").1 = some 1 := by
  have hclock : (([0.0, 0.0, 1.0, 1.0] : List Float) ++ [1.0]).Pairwise
      (· ≤ ·) := by decide
  refine ⟨by decide, hclock, ?_⟩
  obtain ⟨c, past, hrun, -, -, hreads⟩ :=
    served_by_last_use 60.0 (show (1 : Int) ≤ 2 by decide)
    ([(0.0, .set "a" 1 none), (0.0, .set "b" 2 none), (1.0, .get "a"),
      (1.0, .set "c" 3 none)] :
      List (Float × Request String Nat)) 1.0 hclock
  refine ⟨c, past, hrun, ?_, (hreads "a" 1).2 60.0 ?_ (by decide) ?_⟩
  all_goals cases hrun
  · rfl
  · decide
  · decide

/-- A lifetime can take the moment at which an entry is due off the line: the
entry is then read for ever, though it is never due later than now. -/
theorem get_of_expiry_isNaN :
    ([1.0 / 0.0, 1.0 / 0.0] : List Float).Pairwise (· ≤ ·)
      ∧ ∃ (c : Cache String String) (past : List (Event String String)),
        run { lifetime := 10.0, capacity := 256 } []
            [(1.0 / 0.0, .set "k" "v" (some (-1.0 / 0.0)))] = .ok (c, past)
          ∧ (c.get (1.0 / 0.0) "k").1 = some "v"
          ∧ ¬∃ expiry, stored? 10.0 "k" past = some ("v", expiry)
            ∧ 1.0 / 0.0 < expiry := by
  refine ⟨by decide, _, _, rfl, by decide, ?_⟩
  rintro ⟨expiry, hstored, hlater⟩
  cases hstored
  revert hlater
  decide

end GitPersona.Cache
