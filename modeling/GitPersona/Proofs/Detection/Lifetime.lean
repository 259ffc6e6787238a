/-
A remembered ranking is no older than the question that recalls it
allows. Whatever settings earlier questions came with, the lifetime of
the one at hand has not passed since the ranking was computed
(`recalled_within_lifetime`), for an earlier question of the same
session, and the memory was not cleared in between. A question that
comes with the cache off does not touch the memory.

# Whose lifetime it is

An entry is due by the lifetime of the question that stored it, while
the promise is made to the question that reads it. The two lifetimes
are one: the key spells out the settings, so settings with one key are
equal (`DetectionSettings.compact_injective`). Digests play no part in
this, and what they digest may collide. The clock starts later than
minus infinity: an endless lifetime from there would end at no number,
which is never due.

`Accounted` is the invariant: every entry of the memory was stored at
some event of the session, after which nothing was forgotten. A step
keeps an entry, stores one, or forgets all of them (`leaves_after`), so a
run keeps the invariant (`accounted_afterAll`).
-/
import GitPersona.Proofs.Detection.Memory
import GitPersona.Proofs.Number.Quotient

namespace GitPersona.Detection

-- ================================================== statement vocabulary

/-- The surroundings after a list of events. -/
def Surroundings.afterAll (s : Surroundings) (es : List Event) :
    Surroundings :=
  es.foldl Surroundings.after s

/-- The clock never goes back while events happen. -/
def Surroundings.RunsOn (s : Surroundings) : List Event → Prop
  | [] => True
  | e :: es => s.now ≤ (s.after e).now ∧ (s.after e).RunsOn es

namespace Session

/-- The session after a list of events. -/
def afterAll (x : Session) (es : List Event) : Session :=
  es.foldl Session.after x

/-- A question is answered with a ranking from memory, which it finds
under a key. -/
def Recalls (x : Session) (q : Question)
    (override : Option DetectionSettings) (key : RankingKey)
    (ranking : List Detected) : Prop :=
  ∃ c d, x.surroundings.contextFor q = .ok c
    ∧ key = RankingKey.of c x.surroundings.profiles
      (override.getD x.detector.settings)
    ∧ x.detector.rankContext x.surroundings c override
      = ⟨.ok ranking, false, d⟩

/-- An event is a question, its ranking is computed, and the memory holds
it from then on. -/
def Stores (x : Session) (e : Event)
    (entry : Cache.Entry RankingKey (List Detected)) : Prop :=
  ∃ q override c d, e = .asked q override
    ∧ x.surroundings.contextFor q = .ok c
    ∧ entry = x.surroundings.entry c (override.getD x.detector.settings)
      entry.value
    ∧ x.surroundings.rank c (override.getD x.detector.settings)
      = .ok entry.value
    ∧ x.detector.rankContext x.surroundings c override
      = ⟨.ok entry.value, true, d⟩
    ∧ d.memory.find? entry.key = some entry

end Session

-- ================================================================ the clock

variable {s : Surroundings} {e : Event} {es later : List Event}

theorem Surroundings.afterAll_append (s : Surroundings)
    (es later : List Event) :
    s.afterAll (es ++ later) = (s.afterAll es).afterAll later :=
  List.foldl_append

theorem Surroundings.runsOn_append_iff :
    s.RunsOn (es ++ later) ↔ s.RunsOn es ∧ (s.afterAll es).RunsOn later := by
  induction es generalizing s with
  | nil => exact iff_and_self.2 fun _ => trivial
  | cons e es ih =>
      rw [List.cons_append, RunsOn, RunsOn, ih, and_assoc]
      rfl

/-- After events the clock reads no less than before. -/
theorem Surroundings.RunsOn.now_le (h : s.RunsOn (e :: es)) :
    s.now ≤ (s.afterAll (e :: es)).now := by
  induction es generalizing s e with
  | nil => exact h.1
  | cons e' es ih => exact Number.le_trans h.1 (ih h.2)

/-- A clock that starts later than minus infinity never reads that. -/
theorem Surroundings.RunsOn.lt_now (h : s.RunsOn es)
    (hstart : -1.0 / 0.0 < s.now) :
    -1.0 / 0.0 < (s.afterAll es).now := by
  cases es with
  | nil => exact hstart
  | cons e es => exact Number.lt_of_lt_of_le hstart h.now_le

-- =================================================================== a step

namespace Session

variable {x start : Session} {past : List Event}

theorem surroundings_afterAll (x : Session) (es : List Event) :
    (x.afterAll es).surroundings = x.surroundings.afterAll es := by
  induction es generalizing x with
  | nil => rfl
  | cons e es ih => exact ih (x.after e)

theorem afterAll_concat (x : Session) (past : List Event) (e : Event) :
    x.afterAll (past ++ [e]) = (x.afterAll past).after e :=
  List.foldl_concat ..

/-- What an event leaves of a detector: its settings, the room in its memory,
and of the entries those that were there, unless all are forgotten, with none
new but the one that the event stores. -/
structure Leaves (x : Session) (e : Event) (d : Detector) : Prop where
  settings : d.settings = x.detector.settings
  capacity : d.memory.capacity = x.detector.memory.capacity
  entries : ∀ entry ∈ d.memory.entries,
    entry ∈ x.detector.memory.entries ∧ e ≠ .forgotten ∨ x.Stores e entry

/-- An event that does not touch the detector leaves it as it was. -/
theorem leaves_self (x : Session) (he : e ≠ .forgotten) :
    x.Leaves e x.detector :=
  ⟨rfl, rfl, fun _ hentry => Or.inl ⟨hentry, he⟩⟩

/-- A question stores its ranking, or brings no entry. -/
theorem leaves_ask (hroom : 1 ≤ x.detector.memory.capacity) (q : Question)
    (override : Option DetectionSettings) :
    x.Leaves (.asked q override)
      (x.detector.ask x.surroundings override q).detector := by
  have hquestion : Event.asked q override ≠ .forgotten := by simp
  cases hcontext : x.surroundings.contextFor q with
  | error f =>
      rw [Detector.ask_of_context_error hcontext]
      exact leaves_self x hquestion
  | ok c =>
      rw [Detector.ask_of_context_ok hcontext]
      show x.Leaves _ (x.detector.rankContext _ c override).detector
      have hranks := Detector.ranks_rankContext hroom x.surroundings c
        override
      generalize hrank : x.detector.rankContext x.surroundings c override
        = a at hranks
      cases hranks with
      | uncached _ => exact leaves_self x hquestion
      | unwritable _ _ => exact leaves_self x hquestion
      | recalled _ _ _ _ _ hcapacity hkept =>
          exact ⟨rfl, hcapacity,
            fun entry h => Or.inl ⟨hkept entry h, hquestion⟩⟩
      | failed _ _ _ hcapacity hkept =>
          exact ⟨rfl, hcapacity,
            fun entry h => Or.inl ⟨hkept entry h, hquestion⟩⟩
      | stored _ _ hcomputed hcapacity hfind hentries =>
          refine ⟨rfl, hcapacity, fun entry h => ?_⟩
          rcases hentries entry h with hold | rfl
          · exact Or.inl ⟨hold, hquestion⟩
          · exact Or.inr ⟨q, override, c, _, rfl, hcontext, rfl,
              hcomputed, hrank, hfind⟩

/-- What an event does to the memory: it keeps entries, unless it forgets all,
and it brings none but the one that it stores. -/
theorem leaves_after (hroom : 1 ≤ x.detector.memory.capacity) (e : Event) :
    x.Leaves e (x.after e).detector := by
  cases e with
  | asked q override => exact leaves_ask hroom q override
  | profilesChanged ps => exact leaves_self x (by simp)
  | repositoryChanged r => exact leaves_self x (by simp)
  | hostnameChanged name => exact leaves_self x (by simp)
  | moved cwd => exact leaves_self x (by simp)
  | passed seconds => exact leaves_self x (by simp)
  | forgotten => exact ⟨rfl, rfl, fun entry h => absurd h List.not_mem_nil⟩

/-- What is recalled is the value of an entry that is not due. -/
theorem Recalls.exists_entry {q : Question}
    {override : Option DetectionSettings}
    {key : RankingKey} {ranking : List Detected}
    (h : x.Recalls q override key ranking)
    (hroom : 1 ≤ x.detector.memory.capacity) :
    ∃ entry ∈ x.detector.memory.entries, entry.key = key
      ∧ entry.value = ranking
      ∧ ¬entry.expiresAt ≤ x.surroundings.now := by
  obtain ⟨c, d, -, rfl, hranked⟩ := h
  have hranks := Detector.ranks_rankContext hroom x.surroundings c override
  generalize x.detector.rankContext x.surroundings c override = a
    at hranks hranked
  cases hranks with
  | recalled _ _ hentry hkey hdue _ _ =>
      injection hranked with hranking
      cases hranking
      exact ⟨_, hentry, hkey, rfl, hdue⟩
  | unwritable _ _ =>
      injection hranked with hranking
      cases hranking
  | uncached _ =>
      injection hranked with _ hcomputed
      cases hcomputed
  | failed _ _ _ _ _ =>
      injection hranked with _ hcomputed
      cases hcomputed
  | stored _ _ _ _ _ _ =>
      injection hranked with _ hcomputed
      cases hcomputed

/-- An entry that is stored is due after the lifetime that its
key spells out. -/
theorem Stores.expiresAt_eq {entry : Cache.Entry RankingKey (List Detected)}
    {settings : DetectionSettings} (h : x.Stores e entry)
    (hx : x.detector.settings.Valid)
    (he : e.Valid) (hvalid : settings.Valid)
    (hkey : entry.key.settings = settings.compact) :
    entry.expiresAt = x.surroundings.now + settings.cacheTtlSeconds := by
  obtain ⟨q, override, c, d, rfl, -, hentry, -⟩ := h
  rw [hentry] at hkey ⊢
  obtain rfl := DetectionSettings.compact_injective (he.getD hx) hvalid hkey
  rfl

/-- A question whose ranking is known without being computed was answered
from memory. -/
theorem exists_recalls {q : Question} {override : Option DetectionSettings}
    (hroom : 1 ≤ x.detector.memory.capacity) {c : Context}
    (hcontext : x.surroundings.contextFor q = .ok c)
    (hwritable : x.surroundings.profiles.findSome? x.surroundings.refusal?
      = none)
    (hcomputed : (x.detector.ask x.surroundings override q).computed
      = false) :
    ∃ key ranking, x.Recalls q override key ranking := by
  rw [Detector.ask_of_context_ok hcontext] at hcomputed
  change (x.detector.rankContext x.surroundings c override).computed = false
    at hcomputed
  have hranks := Detector.ranks_rankContext hroom x.surroundings c override
  generalize hrank : x.detector.rankContext x.surroundings c override = a
    at hranks hcomputed
  cases hranks with
  | uncached _ => cases hcomputed
  | unwritable _ hrefused =>
      rw [hwritable] at hrefused
      cases hrefused
  | recalled _ _ _ _ _ _ _ => exact ⟨_, _, c, _, hcontext, rfl, hrank⟩
  | failed _ _ _ _ _ => cases hcomputed
  | stored _ _ _ _ _ _ => cases hcomputed

-- ==================================================================== a run

/-- The session has its settings, room in its memory, and for every entry there
an event that stored it, after which nothing was forgotten. -/
structure Accounted (own : DetectionSettings) (start : Session)
    (past : List Event) : Prop where
  settings : (start.afterAll past).detector.settings = own
  room : 1 ≤ (start.afterAll past).detector.memory.capacity
  entries : ∀ entry ∈ (start.afterAll past).detector.memory.entries,
    ∃ earlier e later, past = earlier ++ e :: later ∧ .forgotten ∉ later
      ∧ (start.afterAll earlier).Stores e entry

variable {own : DetectionSettings}

theorem Accounted.concat (h : Accounted own start past) (e : Event) :
    Accounted own start (past ++ [e]) := by
  obtain ⟨hsettings, hcapacity, hentries⟩ := leaves_after h.room e
  refine ⟨?_, ?_, fun entry hentry => ?_⟩
  · rw [afterAll_concat, hsettings, h.settings]
  · rw [afterAll_concat, hcapacity]
    exact h.room
  · rw [afterAll_concat] at hentry
    rcases hentries entry hentry with ⟨hold, hne⟩ | hstores
    · -- an older entry was stored where it was, and this event forgets nothing
      obtain ⟨earlier, e', later, rfl, hlater, hstores⟩ := h.entries entry hold
      refine ⟨earlier, e', later ++ [e], by simp, fun hmem => ?_, hstores⟩
      rcases List.mem_append.1 hmem with hmem | hmem
      · exact hlater hmem
      · exact hne (List.mem_singleton.1 hmem).symm
    · exact ⟨past, e, [], rfl, List.not_mem_nil, hstores⟩

theorem accounted_afterAll (hown : own.Valid) (s : Surroundings)
    (past : List Event) :
    Accounted own (Session.start own s) past := by
  induction past using List.reverseRecOn with
  | nil => exact ⟨rfl, hown.capacity, fun entry h => absurd h List.not_mem_nil⟩
  | append_singleton past e ih => exact ih.concat e

end Session

-- ============================================================== main result

/-- In a session whose clock never goes back, a recalled ranking was computed
for an earlier question and stored under the same key, nothing was forgotten
since, and the lifetime that the question at hand allows has not passed.
Questions with the cache off go past the memory. -/
theorem recalled_within_lifetime (own : DetectionSettings) (s : Surroundings)
    (es : List Event)
    (hown : own.Valid) (hvalid : ∀ e ∈ es, e.Valid)
    (hstart : -1.0 / 0.0 < s.now)
    (hclock : s.RunsOn es) :
    (∀ q override key ranking, (Event.asked q override).Valid →
        ((Session.start own s).afterAll es).Recalls q override key ranking →
        ∃ earlier e later entry, es = earlier ++ e :: later
          ∧ .forgotten ∉ later
          ∧ ((Session.start own s).afterAll earlier).Stores e entry
          ∧ entry.key = key ∧ entry.value = ranking
          ∧ (s.afterAll earlier).now ≤ (s.afterAll es).now
          ∧ (s.afterAll es).now
            < (s.afterAll earlier).now + (override.getD own).cacheTtlSeconds)
      ∧ ∀ q override, (override.getD own).enableCache = false → ∀ s' memory,
          Detector.ask ⟨own, memory⟩ s' override q
            = ⟨s'.fresh (override.getD own) q, (s'.contextFor q).isOk,
              ⟨own, memory⟩⟩ := by
  refine ⟨fun q override key ranking hq hrecalls => ?_,
    fun q override hcache s' memory =>
    Detector.ask_of_cache_off hcache s' q⟩
  have hacc := Session.accounted_afterAll hown s es
  obtain ⟨entry, hentry, hkey, hvalue, hdue⟩ := hrecalls.exists_entry hacc.room
  obtain ⟨earlier, e, later, rfl, hlater, hstores⟩ := hacc.entries entry hentry
  obtain ⟨hearlier, hsince⟩ := Surroundings.runsOn_append_iff.1 hclock
  have hnow : (s.afterAll earlier).now
      ≤ (s.afterAll (earlier ++ e :: later)).now := by
    rw [Surroundings.afterAll_append]
    exact hsince.now_le
  refine ⟨earlier, e, later, entry, rfl, hlater, hstores, hkey, hvalue, hnow,
    ?_⟩
  have hown' : (override.getD own).Valid := hq.getD hown
  have hstored := Session.accounted_afterAll hown s earlier
  -- the entry spells out in its key the settings of the question at hand
  have hexpiry : entry.expiresAt
      = (s.afterAll earlier).now + (override.getD own).cacheTtlSeconds := by
    obtain ⟨c, d, -, rfl, -⟩ := hrecalls
    have hspelled := congrArg RankingKey.settings hkey
    rw [hacc.settings] at hspelled
    have hexpires := hstores.expiresAt_eq (hstored.settings.symm ▸ hown)
      (hvalid e (by simp)) hown' hspelled
    rwa [Session.surroundings_afterAll] at hexpires
  rw [Session.surroundings_afterAll, hexpiry] at hdue
  have hlater' : -1.0 / 0.0 < (override.getD own).cacheTtlSeconds :=
    Number.lt_of_lt_of_le (by decide) (Number.le_of_lt hown'.lifetime)
  exact Number.lt_of_not_le
    (Number.isNumber_add (hearlier.lt_now hstart) hlater')
    (Number.isNumber_of_le hnow).2 hdue

/-- Settings that ask for rankings of the last second. -/
def lastSecond : DetectionSettings :=
  { cacheTtlSeconds := 1.0 }

/-- A question with a lifetime of a second, half of which then passes. -/
def homeBoxSecond : List Event :=
  [.asked (.all none) (some lastSecond), .passed 0.5]

/-- The same question is answered from memory within its second. -/
theorem recalled_homeBoxSecond :
    DetectionSettings.Valid {} ∧ (∀ e ∈ homeBoxSecond, e.Valid)
      ∧ -1.0 / 0.0 < homeBox.now
      ∧ homeBox.RunsOn homeBoxSecond
      ∧ ∃ key ranking,
        ((Session.start {} homeBox).afterAll homeBoxSecond).Recalls (.all none)
          (some lastSecond)
            key ranking
          ∧ ∃ earlier e later entry, homeBoxSecond = earlier ++ e :: later
            ∧ .forgotten ∉ later
            ∧ ((Session.start {} homeBox).afterAll earlier).Stores e entry
            ∧ entry.key = key ∧ entry.value = ranking
            ∧ (homeBox.afterAll earlier).now
              ≤ (homeBox.afterAll homeBoxSecond).now
            ∧ (homeBox.afterAll homeBoxSecond).now
              < (homeBox.afterAll earlier).now + 1.0 := by
  have hown : DetectionSettings.Valid {} := by decide
  have hsecond : ∀ q, (Event.asked q (some lastSecond)).Valid := by
    intro q settings h
    rw [← Option.mem_some.1 h]
    decide
  have hvalid : ∀ e ∈ homeBoxSecond, e.Valid := by
    intro e he
    simp only [homeBoxSecond, List.mem_cons, List.not_mem_nil, or_false] at he
    rcases he with rfl | rfl
    · exact hsecond _
    · trivial
  have hstart : -1.0 / 0.0 < homeBox.now := by decide
  have hclock : homeBox.RunsOn homeBoxSecond := ⟨by decide, by decide, trivial⟩
  have hrecalls : ∃ key ranking,
      ((Session.start {} homeBox).afterAll homeBoxSecond).Recalls (.all none)
        (some lastSecond)
        key ranking := by
    exact Session.exists_recalls (c := boxRoot)
      (Session.accounted_afterAll hown _ _).room rfl rfl (by decide +kernel)
  obtain ⟨key, ranking, hrecalls⟩ := hrecalls
  exact ⟨hown, hvalid, hstart, hclock, key, ranking, hrecalls,
    (recalled_within_lifetime {} homeBox homeBoxSecond hown hvalid hstart
      hclock).1
      (.all none) (some lastSecond) key ranking (hsecond _) hrecalls⟩

end GitPersona.Detection
