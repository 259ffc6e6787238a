/-
A detector's memory cannot be told from no memory, but for one thing. A
session answers every question as it would if each ranking were computed
when it is asked for, whatever was asked before, whatever changed in
between and whatever the memory dropped (`responses_eq_answers`). The
exception lies in the key: to make it, every profile is written as JSON,
and a profile that cannot be written ends a question that would have been
answered without a memory (`Surroundings.rankWithKey`).

# The invariant

Every entry of the memory is `Faithful`: it was computed from a context,
profiles and settings whose key it is stored under. That alone does not
make it the right answer for the question at hand, which came with its
own context, profiles and settings; what does is that the key covers all
that a ranking depends on (`rank_eq_of_key_eq`). Two of its parts are
digests, so this needs digests that do not collide, on the messages of
the run and on no others. The home directories are no part of the key,
and no event changes them.

Settings are valid, which reading them promises
(`Settings.readDetection_ensures`): a memory for at least one ranking
never refuses one, and the compact form of valid settings determines
them.
-/
import GitPersona.Detection.Session
import GitPersona.Proofs.Attempt
import GitPersona.Proofs.Cache
import GitPersona.Proofs.Context.Payload
import GitPersona.Proofs.Detection.Observation
import GitPersona.Proofs.Detection.Ranking
import GitPersona.Proofs.Settings.Compact

namespace GitPersona

/-- The settings with the cache switched off. -/
def DetectionSettings.uncached (t : DetectionSettings) :
    DetectionSettings :=
  { t with enableCache := false }

namespace Detection

open Digest (sha256Hex utf8)

-- ================================================== statement vocabulary

/-- The context that a question is about. -/
def Surroundings.contextFor (s : Surroundings) :
    Question → Except Fault Context
  | .best => Context.extract s.place s.repository s.hostname none
  | .bestIn path => Context.extract s.place s.repository s.hostname path
  | .all path => Context.extract s.place s.repository s.hostname path
  | .bestFor c => .ok c
  | .allFor c => .ok c

/-- A ranking, as the answer to a question. -/
def Question.respond (settings : DetectionSettings)
    (ranking : List Detected) : Question → Except Fault Response
  | .best => .ok (.one ranking.head?)
  | .bestIn _ => .ok (.one ranking.head?)
  | .all _ => .ok (.many ranking)
  | .bestFor c =>
    match ranking with
    | first :: _ => .ok (.one (some first))
    | [] => .error (.noProfileMatches c.workingDir settings.minConfidence)
  | .allFor _ => .ok (.many ranking)

/-- A way to rank the profiles of the surroundings for a context. -/
def Ranker : Type :=
  Surroundings → Context → DetectionSettings → Except Fault (List Detected)

/-- The answer to a question when its ranking is made in some way. -/
def Surroundings.answer (s : Surroundings) (ranker : Ranker)
    (settings : DetectionSettings) (q : Question) :
    Except Fault Response := do
  let c ← s.contextFor q
  let ranking ← ranker s c settings
  q.respond settings ranking

/-- The answer to a question when its ranking is computed. -/
def Surroundings.fresh (s : Surroundings) (settings : DetectionSettings)
    (q : Question) : Except Fault Response :=
  s.answer Surroundings.rank settings q

/-- The ranking is computed, unless one of the profiles cannot be written
and the cache is on. -/
def Surroundings.rankWithKey : Ranker := fun s c settings =>
  match settings.enableCache, s.profiles.findSome? s.refusal? with
  | true, some complaint => .error (.mishap (.unwritable complaint))
  | _, _ => s.rank c settings

/-- The answer to the question of an event. -/
def Surroundings.answer? (s : Surroundings) (ranker : Ranker)
    (own : DetectionSettings) : Event → Option (Except Fault Response)
  | .asked q override => some (s.answer ranker (override.getD own) q)
  | _ => none

/-- The answers to the questions of a list of events. -/
def answers (ranker : Ranker) (own : DetectionSettings)
    (s : Surroundings) : List Event → List (Except Fault Response)
  | [] => []
  | e :: es =>
    (s.answer? ranker own e).toList ++ answers ranker own (s.after e) es

/-- The answers to the questions of a list of events when every ranking
is computed. -/
def freshResponses (own : DetectionSettings) (s : Surroundings)
    (es : List Event) : List (Except Fault Response) :=
  answers Surroundings.rank own s es

/-- During a list of events there is no profile that cannot be written. -/
def Writable (s : Surroundings) : List Event → Prop
  | [] => True
  | e :: es => (∀ p ∈ s.profiles, s.refusal? p = none)
    ∧ Writable (s.after e) es

/-- What is digested at an event: a ranking that may be remembered is
looked up by the payloads of its context and of the profiles, if those
can be written. -/
def Surroundings.messagesOf (s : Surroundings) (own : DetectionSettings) :
    Event → List (List UInt8)
  | .asked q override =>
    match s.contextFor q with
    | .ok c =>
      if (override.getD own).enableCache
          ∧ s.profiles.findSome? s.refusal? = none then
        [utf8 c.payload, utf8 (Profile.listPayload s.profiles)]
      else []
    | .error _ => []
  | _ => []

/-- What is digested during a list of events. -/
def messages (own : DetectionSettings) (s : Surroundings) :
    List Event → List (List UInt8)
  | [] => []
  | e :: es => s.messagesOf own e ++ messages own (s.after e) es

/-- No two of the messages have one digest. -/
def CollisionFree (ms : List (List UInt8)) : Prop :=
  ∀ m ∈ ms, ∀ m' ∈ ms, sha256Hex m = sha256Hex m' → m = m'

instance (ms : List (List UInt8)) : Decidable (CollisionFree ms) :=
  inferInstanceAs (Decidable
    (∀ m ∈ ms, ∀ m' ∈ ms, sha256Hex m = sha256Hex m' → m = m'))

/-- The settings that come with a question are valid. -/
def Event.Valid : Event → Prop
  | .asked _ override => ∀ settings ∈ override, settings.Valid
  | _ => True

/-- The settings in effect for a valid question are valid. -/
theorem Event.Valid.getD {q : Question}
    {override : Option DetectionSettings} {own : DetectionSettings}
    (h : (Event.asked q override).Valid) (hown : own.Valid) :
    (override.getD own).Valid := by
  cases override with
  | none => exact hown
  | some settings => exact h settings rfl

/-- The same event with the cache switched off. -/
def Event.uncached : Event → Event
  | .asked q override =>
    .asked q (override.map DetectionSettings.uncached)
  | e => e

-- ============================================================== the key

variable {ms : List (List UInt8)} {own settings : DetectionSettings}
  {homes : Homes} {s : Surroundings} {c : Context} {f : Fault}

/-- A key covers everything that a ranking depends on, but for the home
directories. -/
theorem rank_eq_of_key_eq {c c' : Context} {ps ps' : List Profile}
    {settings settings' : DetectionSettings} (hsha : CollisionFree ms)
    (hc : utf8 c.payload ∈ ms) (hc' : utf8 c'.payload ∈ ms)
    (hps : utf8 (Profile.listPayload ps) ∈ ms)
    (hps' : utf8 (Profile.listPayload ps') ∈ ms)
    (hvalid : settings.Valid) (hvalid' : settings'.Valid)
    (hkey : RankingKey.of c ps settings
      = RankingKey.of c' ps' settings') :
    rank homes c settings ps = rank homes c' settings' ps' := by
  injection hkey with hcontext hprofiles hsettings
  obtain rfl := DetectionSettings.compact_injective hvalid hvalid' hsettings
  have hlist := Digest.utf8_injective (hsha _ hps _ hps' hprofiles)
  obtain rfl := Profile.listPayload_injective hlist
  have hpayload := Digest.utf8_injective (hsha _ hc _ hc' hcontext)
  obtain ⟨hdir, hhost, hremotes, hconfig⟩ :=
    Context.eq_of_payload_eq hpayload
  apply rank_eq_of_alike
  exact Context.Alike.of_sorted hdir hhost hremotes hconfig

/-- There is a key if every profile can be written, and that is all
it depends on. -/
theorem key_eq_ok_iff {key : RankingKey} : s.key c settings = .ok key
    ↔ s.profiles.findSome? s.refusal? = none
      ∧ key = .of c s.profiles settings := by
  unfold Surroundings.key
  cases s.profiles.findSome? s.refusal? with
  | none => simp [eq_comm]
  | some complaint => simp

/-- There is no key exactly when a profile cannot be written, and the first
one decides. -/
theorem key_eq_error_iff : s.key c settings = .error f
    ↔ ∃ complaint, s.profiles.findSome? s.refusal? = some complaint
      ∧ f = .mishap (.unwritable complaint) := by
  unfold Surroundings.key
  cases s.profiles.findSome? s.refusal? with
  | none => simp
  | some complaint => simp [eq_comm]

/-- A ranking in some surroundings is one of the profiles there. -/
theorem Surroundings.rank_eq_ok_iff {ranking : List Detected} :
    s.rank c settings = .ok ranking
      ↔ Detection.rank s.place.homes c settings s.profiles
        = .ok ranking := by
  unfold Surroundings.rank
  cases Detection.rank s.place.homes c settings s.profiles with
  | error defect => simp [Except.mapError]
  | ok ranking' => simp [Except.mapError]

/-- Profiles that can all be written are ranked as they are. -/
theorem rankWithKey_of_writable
    (h : s.profiles.findSome? s.refusal? = none) :
    s.rankWithKey c settings = s.rank c settings := by
  unfold Surroundings.rankWithKey
  rw [h]
  cases settings.enableCache <;> rfl

/-- With the cache on, a profile that cannot be written ends a question. -/
theorem rankWithKey_of_unwritable (hcache : settings.enableCache = true)
    {complaint : String}
    (h : s.profiles.findSome? s.refusal? = some complaint) :
    s.rankWithKey c settings
      = .error (.mishap (.unwritable complaint)) := by
  unfold Surroundings.rankWithKey
  rw [hcache, h]

/-- With the cache off, it does not matter what can be written. -/
theorem rankWithKey_of_cache_off (h : settings.enableCache = false) :
    s.rankWithKey c settings = s.rank c settings := by
  unfold Surroundings.rankWithKey
  rw [h]

-- ======================================================== the invariant

/-- An entry holds what would be computed: the ranking of a context,
profiles and settings whose key it has. -/
def Faithful (ms : List (List UInt8)) (homes : Homes)
    (e : Cache.Entry RankingKey (List Detected)) : Prop :=
  ∃ c ps settings, DetectionSettings.Valid settings
    ∧ utf8 (Context.payload c) ∈ ms ∧ utf8 (Profile.listPayload ps) ∈ ms
    ∧ e.key = RankingKey.of c ps settings
    ∧ rank homes c settings ps = .ok e.value

/-- What a faithful entry holds for a key is what would be computed now. -/
theorem Faithful.rank_eq {e : Cache.Entry RankingKey (List Detected)}
    (h : Faithful ms homes e) (hsha : CollisionFree ms) {c : Context}
    {ps : List Profile} {settings : DetectionSettings}
    (hvalid : settings.Valid) (hc : utf8 c.payload ∈ ms)
    (hps : utf8 (Profile.listPayload ps) ∈ ms)
    (hkey : e.key = RankingKey.of c ps settings) :
    rank homes c settings ps = .ok e.value := by
  -- the entry was computed from inputs of its own, which have the same key
  obtain ⟨c', ps', settings', hvalid', hc', hps', hkey', hvalue'⟩ := h
  rw [← hvalue']
  exact rank_eq_of_key_eq hsha hc hc' hps hps' hvalid hvalid'
    (hkey.symm.trans hkey')

/-- A detector with its own settings, room in its memory, and faithful
entries only. -/
structure Detector.Sound (ms : List (List UInt8))
    (own : DetectionSettings) (homes : Homes) (d : Detector) : Prop where
  settings : d.settings = own
  room : 1 ≤ d.memory.capacity
  entries : ∀ e ∈ d.memory.entries, Faithful ms homes e

/-- What is remembered of a ranking that was computed. -/
def Surroundings.entry (s : Surroundings) (c : Context)
    (settings : DetectionSettings) (ranking : List Detected) :
    Cache.Entry RankingKey (List Detected) where
  key := RankingKey.of c s.profiles settings
  expiresAt := s.now + settings.cacheTtlSeconds
  value := ranking

namespace Detector

/-- A detector that remembers nothing is sound. -/
theorem sound_new (hown : own.Valid) :
    (Detector.new own).Sound ms own homes := by
  refine ⟨rfl, hown.capacity, fun e he => ?_⟩
  cases he

variable {d : Detector} {override : Option DetectionSettings}

/-- Forgetting leaves a detector sound. -/
theorem Sound.clearMemory (h : d.Sound ms own homes) :
    d.clearMemory.Sound ms own homes := by
  refine ⟨h.settings, h.room, fun e he => ?_⟩
  cases he

-- ============================================================ a ranking

/-- The ways a detector comes to a ranking, or to none. -/
inductive Ranks (d : Detector) (s : Surroundings) (c : Context)
    (settings : DetectionSettings) : Answer → Prop
  /-- With the cache off it is computed, and the memory is left alone. -/
  | uncached :
      settings.enableCache = false →
      Ranks d s c settings ⟨s.rank c settings, true, d⟩
  /-- A profile cannot be written, so there is no key. -/
  | unwritable {complaint : String} :
      settings.enableCache = true →
      s.profiles.findSome? s.refusal? = some complaint →
      Ranks d s c settings
        ⟨.error (.mishap (.unwritable complaint)), false, d⟩
  /-- The memory holds it. -/
  | recalled {e : Cache.Entry RankingKey (List Detected)}
      {memory : Cache RankingKey (List Detected)} :
      settings.enableCache = true →
      s.profiles.findSome? s.refusal? = none →
      e ∈ d.memory.entries → e.key = .of c s.profiles settings →
      ¬e.expiresAt ≤ s.now → memory.capacity = d.memory.capacity →
      (∀ e ∈ memory.entries, e ∈ d.memory.entries) →
      Ranks d s c settings ⟨.ok e.value, false, { d with memory }⟩
  /-- The memory does not hold it, and computing it fails. -/
  | failed {f : Fault} {memory : Cache RankingKey (List Detected)} :
      settings.enableCache = true →
      s.profiles.findSome? s.refusal? = none →
      s.rank c settings = .error f →
      memory.capacity = d.memory.capacity →
      (∀ e ∈ memory.entries, e ∈ d.memory.entries) →
      Ranks d s c settings ⟨.error f, true, { d with memory }⟩
  /-- It is computed and remembered. -/
  | stored {ranking : List Detected}
      {memory : Cache RankingKey (List Detected)} :
      settings.enableCache = true →
      s.profiles.findSome? s.refusal? = none →
      s.rank c settings = .ok ranking →
      memory.capacity = d.memory.capacity →
      memory.find? (.of c s.profiles settings)
        = some (s.entry c settings ranking) →
      (∀ e ∈ memory.entries,
        e ∈ d.memory.entries ∨ e = s.entry c settings ranking) →
      Ranks d s c settings ⟨.ok ranking, true, { d with memory }⟩

/-- A ranking that is not in the memory is computed, and remembered if that
succeeds: a memory with room for a ranking never refuses one. -/
theorem ranks_remember {memory : Cache RankingKey (List Detected)}
    (hcache : settings.enableCache = true)
    (hwritable : s.profiles.findSome? s.refusal? = none)
    (hroom : 1 ≤ memory.capacity)
    (hcapacity : memory.capacity = d.memory.capacity)
    (hkept : ∀ e ∈ memory.entries, e ∈ d.memory.entries) :
    d.Ranks s c settings ({ d with memory }.remember s c settings
      (.of c s.profiles settings)) := by
  unfold remember
  cases hrank : s.rank c settings with
  | error f => exact .failed hcache hwritable hrank hcapacity hkept
  | ok ranking =>
      obtain ⟨memory', hset, hcapacity', hfind, hentries⟩ :=
        Cache.set_spec hroom s.now (.of c s.profiles settings) ranking
          (some settings.cacheTtlSeconds)
      dsimp only
      rw [hset]
      exact .stored hcache hwritable hrank (hcapacity'.trans hcapacity)
        hfind fun e he => (hentries e he).imp_left (hkept e)

/-- Ranking for a context recalls a ranking, computes it, or fails
over the key. -/
theorem ranks_rankContext (hroom : 1 ≤ d.memory.capacity)
    (s : Surroundings) (c : Context)
    (override : Option DetectionSettings) :
    d.Ranks s c (override.getD d.settings)
      (d.rankContext s c override) := by
  unfold Detector.rankContext
  dsimp only
  cases hcache : (override.getD d.settings).enableCache with
  | false => exact .uncached hcache
  | true =>
      rw [if_pos rfl]
      cases hkey : s.key c (override.getD d.settings) with
      | error f =>
          obtain ⟨complaint, hcomplaint, rfl⟩ := key_eq_error_iff.1 hkey
          exact .unwritable hcache hcomplaint
      | ok key =>
          obtain ⟨hwritable, hof⟩ := key_eq_ok_iff.1 hkey
          have hkept : ∀ e ∈ (d.memory.get s.now key).2.entries,
              e ∈ d.memory.entries := fun e he => Cache.mem_of_get he
          have hcapacity := Cache.capacity_get d.memory s.now key
          have hread := @Cache.exists_of_get _ _ _ d.memory s.now key
          subst hof
          dsimp only
          cases hget : d.memory.get s.now
              (.of c s.profiles (override.getD d.settings)) with
          | mk found memory =>
              rw [hget] at hkept hcapacity hread
              cases found with
              | some ranking =>
                  obtain ⟨e, he, hkey', rfl, hdue⟩ := hread rfl
                  exact .recalled hcache hwritable he hkey' hdue hcapacity
                    hkept
              | none =>
                  -- the reading may have dropped an entry that is due
                  exact ranks_remember hcache hwritable
                    (hcapacity.symm ▸ hroom) hcapacity hkept

/-- With the cache off a ranking is computed, and the memory is left alone. -/
theorem rankContext_uncached
    (hcache : (override.getD d.settings).enableCache = false) :
    d.rankContext s c override
      = ⟨s.rank c (override.getD d.settings), true, d⟩ := by
  unfold Detector.rankContext
  dsimp only
  rw [hcache]
  rfl

/-- A sound detector ranks as if it computed, but for profiles that cannot
be written, and is sound afterwards. -/
theorem Sound.rankContext (h : d.Sound ms own s.place.homes)
    (hsha : CollisionFree ms) (hvalid : (override.getD own).Valid)
    (hms : (override.getD own).enableCache = true →
      s.profiles.findSome? s.refusal? = none →
      utf8 c.payload ∈ ms ∧ utf8 (Profile.listPayload s.profiles) ∈ ms) :
    (d.rankContext s c override).ranking
        = s.rankWithKey c (override.getD own)
      ∧ (d.rankContext s c override).detector.Sound ms own
        s.place.homes := by
  obtain rfl := h.settings
  have hranks := ranks_rankContext h.room s c override
  generalize d.rankContext s c override = a at hranks ⊢
  cases hranks with
  | uncached hcache => exact ⟨(rankWithKey_of_cache_off hcache).symm, h⟩
  | unwritable hcache hcomplaint =>
      exact ⟨(rankWithKey_of_unwritable hcache hcomplaint).symm, h⟩
  | @recalled e memory hcache hwritable he hkey hdue hcapacity hkept =>
      obtain ⟨hc, hps⟩ := hms hcache hwritable
      have hrank := (h.entries e he).rank_eq hsha hvalid hc hps hkey
      refine ⟨?_, rfl, ?_, fun e he => h.entries e (hkept e he)⟩
      · rw [rankWithKey_of_writable hwritable, Surroundings.rank, hrank]
        rfl
      · exact hcapacity.symm ▸ h.room
  | failed hcache hwritable hrank hcapacity hkept =>
      refine ⟨?_, rfl, hcapacity.symm ▸ h.room,
        fun e he => h.entries e (hkept e he)⟩
      rw [rankWithKey_of_writable hwritable, hrank]
  | stored hcache hwritable hrank hcapacity hfind hentries =>
      obtain ⟨hc, hps⟩ := hms hcache hwritable
      refine ⟨?_, rfl, hcapacity.symm ▸ h.room, fun e he => ?_⟩
      · rw [rankWithKey_of_writable hwritable, hrank]
      · rcases hentries e he with hold | rfl
        · exact h.entries e hold
        · exact ⟨c, s.profiles, _, hvalid, hc, hps, rfl,
            Surroundings.rank_eq_ok_iff.1 hrank⟩

-- =========================================================== a question

/-- A question is answered by ranking the profiles for its context. -/
theorem ask_eq (d : Detector) (s : Surroundings)
    (override : Option DetectionSettings) (q : Question) :
    d.ask s override q
      = match s.contextFor q with
        | .error f => ⟨.error f, false, d⟩
        | .ok c => (d.rankContext s c override).respond
            fun ranking => q.respond (override.getD d.settings) ranking := by
  have hdirectory : ∀ (path : Option String)
      (response : List Detected → Except Fault Response),
      (d.detectAll s path override).respond response
        = match Context.extract s.place s.repository s.hostname path with
          | .error f => ⟨.error f, false, d⟩
          | .ok c => (d.rankContext s c override).respond response := by
    intro path response
    unfold detectAll
    cases Context.extract s.place s.repository s.hostname path <;> rfl
  cases q with
  | best => exact hdirectory none _
  | bestIn path => exact hdirectory (some path) _
  | all path => exact hdirectory path _
  | bestFor c =>
      refine congrArg (d.rankContext s c override).respond (funext ?_)
      intro ranking
      cases ranking <;> rfl
  | allFor c => rfl

/-- A question without a context fails as looking at the directory does. -/
theorem ask_of_context_error {q : Question}
    (h : s.contextFor q = .error f) :
    d.ask s override q = ⟨.error f, false, d⟩ := by
  rw [ask_eq, h]

/-- A question with a context is answered by ranking for it. -/
theorem ask_of_context_ok {q : Question} (h : s.contextFor q = .ok c) :
    d.ask s override q = (d.rankContext s c override).respond
      fun ranking => q.respond (override.getD d.settings) ranking := by
  rw [ask_eq, h]

/-- A question with the cache off is answered without the memory, whatever
that holds, and leaves it as it is. -/
theorem ask_of_cache_off
    (hcache : (override.getD d.settings).enableCache = false)
    (s : Surroundings) (q : Question) :
    d.ask s override q = ⟨s.fresh (override.getD d.settings) q,
      (s.contextFor q).isOk, d⟩ := by
  unfold Surroundings.fresh Surroundings.answer
  cases hcontext : s.contextFor q with
  | error f => exact ask_of_context_error hcontext
  | ok c =>
      rw [ask_of_context_ok hcontext, rankContext_uncached hcache]
      rfl

/-- With the cache off a question is answered freshly, and nothing
is remembered. -/
theorem ask_uncached (h : d.settings = own.uncached) (s : Surroundings)
    (override : Option DetectionSettings) (q : Question) :
    (d.ask s (override.map .uncached) q).response
        = s.fresh (override.getD own) q
      ∧ (d.ask s (override.map .uncached) q).detector = d := by
  have hsettings : (override.map .uncached).getD d.settings
      = (override.getD own).uncached := by
    rw [h]
    cases override <;> rfl
  have hoff : ((override.map .uncached).getD d.settings).enableCache
      = false := by
    rw [hsettings]
    rfl
  rw [ask_of_cache_off hoff, hsettings]
  refine ⟨?_, rfl⟩
  cases q <;> rfl

/-- A sound detector answers as if it computed, but for profiles that
cannot be written, and is sound afterwards. -/
theorem Sound.ask (h : d.Sound ms own s.place.homes)
    (hsha : CollisionFree ms) {q : Question}
    (hvalid : (override.getD own).Valid)
    (hms : ∀ m ∈ s.messagesOf own (.asked q override), m ∈ ms) :
    (d.ask s override q).response
        = s.answer Surroundings.rankWithKey (override.getD own) q
      ∧ (d.ask s override q).detector.Sound ms own s.place.homes := by
  unfold Surroundings.answer
  unfold Surroundings.messagesOf at hms
  cases hcontext : s.contextFor q with
  | error f =>
      rw [ask_of_context_error hcontext]
      exact ⟨rfl, h⟩
  | ok c =>
      simp only [hcontext] at hms
      obtain ⟨hranking, hsound⟩ := h.rankContext hsha (c := c) hvalid
        fun hcache hwritable => by
          rw [if_pos ⟨hcache, hwritable⟩] at hms
          exact ⟨hms _ (by simp), hms _ (by simp)⟩
      rw [ask_of_context_ok hcontext]
      refine ⟨?_, hsound⟩
      show (d.rankContext s c override).ranking >>= _ = _
      rw [hranking, h.settings]
      rfl

end Detector

-- =============================================================== a step

/-- A step of a session with a sound detector: the answer is the computed one,
but for profiles that cannot be written, and the detector stays sound. -/
theorem Session.step_of_sound {x : Session} {e : Event}
    (hsha : CollisionFree ms)
    (hx : x.detector.Sound ms own x.surroundings.place.homes)
    (hown : own.Valid) (he : e.Valid)
    (hms : ∀ m ∈ x.surroundings.messagesOf own e, m ∈ ms) :
    (x.asked? e).map (·.response)
        = x.surroundings.answer? Surroundings.rankWithKey own e
      ∧ (x.after e).detector.Sound ms own
        (x.after e).surroundings.place.homes := by
  cases e with
  | asked q override =>
      obtain ⟨hresponse, hsound⟩ := hx.ask hsha (he.getD hown) hms
      exact ⟨congrArg some hresponse, hsound⟩
  | profilesChanged ps => exact ⟨rfl, hx⟩
  | repositoryChanged r => exact ⟨rfl, hx⟩
  | hostnameChanged name => exact ⟨rfl, hx⟩
  | moved cwd => exact ⟨rfl, hx⟩
  | passed seconds => exact ⟨rfl, hx⟩
  | forgotten => exact ⟨rfl, hx.clearMemory⟩

/-- A step of a session with the cache switched off. -/
theorem Session.step_uncached {x : Session}
    (hx : x.detector.settings = own.uncached) (e : Event) :
    (x.asked? e.uncached).map (·.response)
        = x.surroundings.answer? Surroundings.rank own e
      ∧ (x.after e.uncached).surroundings = x.surroundings.after e
      ∧ (x.after e.uncached).detector.settings = own.uncached := by
  cases e with
  | asked q override =>
      obtain ⟨hresponse, hdetector⟩ :=
        Detector.ask_uncached hx x.surroundings override q
      refine ⟨congrArg some hresponse, rfl, ?_⟩
      show (x.detector.ask _ _ _).detector.settings = _
      rw [hdetector, hx]
  | profilesChanged ps => exact ⟨rfl, rfl, hx⟩
  | repositoryChanged r => exact ⟨rfl, rfl, hx⟩
  | hostnameChanged name => exact ⟨rfl, rfl, hx⟩
  | moved cwd => exact ⟨rfl, rfl, hx⟩
  | passed seconds => exact ⟨rfl, rfl, hx⟩
  | forgotten => exact ⟨rfl, rfl, hx⟩

-- ================================================================ a run

/-- A sound session answers as if every ranking were computed. -/
theorem responses_of_sound {x : Session} {es : List Event}
    (hsha : CollisionFree ms)
    (hx : x.detector.Sound ms own x.surroundings.place.homes)
    (hown : own.Valid) (hvalid : ∀ e ∈ es, e.Valid)
    (hms : ∀ m ∈ messages own x.surroundings es, m ∈ ms) :
    x.responses es
      = answers Surroundings.rankWithKey own x.surroundings es := by
  induction es generalizing x with
  | nil => rfl
  | cons e es ih =>
      rw [messages] at hms
      obtain ⟨hresponse, hsound⟩ := Session.step_of_sound hsha hx hown
        (hvalid e List.mem_cons_self)
        fun m hm => hms m (List.mem_append_left _ hm)
      have hrest := ih hsound
        (fun e he => hvalid e (List.mem_cons_of_mem _ he))
        fun m hm => hms m (List.mem_append_right _ hm)
      rw [Session.responses, hresponse, hrest]
      rfl

/-- With the cache off a session answers freshly throughout. -/
theorem responses_uncached {x : Session}
    (hx : x.detector.settings = own.uncached) (es : List Event) :
    x.responses (es.map Event.uncached)
      = freshResponses own x.surroundings es := by
  induction es generalizing x with
  | nil => rfl
  | cons e es ih =>
      obtain ⟨hresponse, hsurroundings, hsettings⟩ :=
        Session.step_uncached hx e
      rw [List.map_cons, Session.responses, hresponse, ih hsettings,
        hsurroundings]
      rfl

/-- As long as every profile can be written, keys take nothing away. -/
theorem answers_of_writable {es : List Event} (h : Writable s es) :
    answers Surroundings.rankWithKey own s es
      = freshResponses own s es := by
  induction es generalizing s with
  | nil => rfl
  | cons e es ih =>
      obtain ⟨hall, hrest⟩ := h
      have hwritable : s.profiles.findSome? s.refusal? = none :=
        List.findSome?_eq_none_iff.2 hall
      have hfirst : s.answer? Surroundings.rankWithKey own e
          = s.answer? Surroundings.rank own e := by
        cases e with
        | asked q override =>
            unfold Surroundings.answer? Surroundings.answer
            simp only [rankWithKey_of_writable hwritable]
        | _ => rfl
      rw [answers, hfirst, ih hrest]
      rfl

/-- A session answers as if every ranking were computed, which is how it
answers with the cache switched off; only where the cache is on and a
profile cannot be written, the question fails over that profile. -/
theorem responses_eq_answers (own : DetectionSettings) (s : Surroundings)
    (es : List Event) (hown : own.Valid) (hvalid : ∀ e ∈ es, e.Valid)
    (hsha : CollisionFree (messages own s es)) :
    (Session.start own s).responses es
        = answers Surroundings.rankWithKey own s es
      ∧ (Session.start own.uncached s).responses (es.map Event.uncached)
        = freshResponses own s es
      ∧ (Writable s es →
        (Session.start own s).responses es = freshResponses own s es) := by
  have hresponses : (Session.start own s).responses es
      = answers Surroundings.rankWithKey own s es :=
    responses_of_sound hsha (Detector.sound_new hown) hown hvalid
      fun m hm => hm
  refine ⟨hresponses, responses_uncached rfl es, fun hwritable => ?_⟩
  rw [hresponses, answers_of_writable hwritable]

/-- A profile for a machine. -/
def homeProfile : Profile :=
  { name := "home", email := "ada@home.example", hostPatterns := ["box"] }

/-- A directory in a repository without signals, on that machine. -/
def homeBox : Surroundings :=
  { place := { homes := Path.adaAndBob, cwd := Path.root }
    profiles := [homeProfile]
    repository := ⟨fun _ => .ok true, fun _ => .ok ∅, fun _ => .ok ∅⟩
    hostname := "box"
    now := 0.0 }

/-- One question three times: at first, after some time, and when there are
no profiles any more. -/
def homeBoxEvents : List Event :=
  [.asked (.all none) none, .passed 1.0,
    .asked (.all none) (some { minConfidence := 0.8 }),
    .profilesChanged [], .asked (.all none) none]

/-- The first question is answered by a computed ranking and the next one by a
cut of it, as fresh answers are. -/
theorem responses_homeBox :
    DetectionSettings.Valid {} ∧ (∀ e ∈ homeBoxEvents, e.Valid)
      ∧ CollisionFree (messages {} homeBox homeBoxEvents)
      ∧ Writable homeBox homeBoxEvents
      ∧ (Session.start {} homeBox).responses homeBoxEvents
        = freshResponses {} homeBox homeBoxEvents := by
  have hown : DetectionSettings.Valid {} := by decide
  have hvalid : ∀ e ∈ homeBoxEvents, e.Valid := by
    intro e he
    simp only [homeBoxEvents, List.mem_cons, List.not_mem_nil,
      or_false] at he
    rcases he with rfl | rfl | rfl | rfl | rfl
    · exact fun settings h => absurd h (by simp)
    · trivial
    · intro settings h
      rw [← Option.mem_some.1 h]
      decide
    · trivial
    · exact fun settings h => absurd h (by simp)
  have hsha : CollisionFree (messages {} homeBox homeBoxEvents) := by
    decide +kernel
  have hwritable : Writable homeBox homeBoxEvents :=
    ⟨fun _ _ => rfl, fun _ _ => rfl, fun _ _ => rfl, fun _ _ => rfl,
      fun _ _ => rfl, trivial⟩
  obtain ⟨-, -, hfresh⟩ :=
    responses_eq_answers {} homeBox homeBoxEvents hown hvalid hsha
  exact ⟨hown, hvalid, hsha, hwritable, hfresh hwritable⟩

/-- The same directory under a JSON writer that refuses every profile. -/
def unwritableBox : Surroundings :=
  { homeBox with refusal? := fun _ => some "surrogates not allowed" }

/-- With the cache on the question then fails; were the ranking computed,
the profile would be found. -/
theorem responses_unwritableBox :
    (Session.start {} unwritableBox).responses [.asked (.all none) none]
        = [.error (.mishap (.unwritable "surrogates not allowed"))]
      ∧ ∃ d, d.profile.name = "home"
        ∧ freshResponses {} unwritableBox [.asked (.all none) none]
          = [.ok (.many [d])] := by
  refine ⟨rfl, ?_⟩
  have hsome : (outcome? Path.adaAndBob boxRoot {} homeProfile).isSome
      = true := by
    decide +kernel
  obtain ⟨d, hd⟩ := Option.isSome_iff_exists.1 hsome
  have hentries : homeProfile.includeIfDirs = [] := by decide
  have hranking : ranking Path.adaAndBob boxRoot {} [homeProfile] = [d] := by
    rw [ranking, List.filterMap_cons, hd]
    simp
  have hrank : unwritableBox.rank boxRoot {} = .ok [d] :=
    Surroundings.rank_eq_ok_iff.2 (rank_eq_ok_iff.2
      ⟨fun _ => List.forall_mem_singleton.2 (not_stumbles_of_nil hentries),
        hranking.symm⟩)
  have hcontext : unwritableBox.contextFor (.all none) = .ok boxRoot := rfl
  refine ⟨d, congrArg Profile.name (profile_of_outcome? hd), ?_⟩
  show [unwritableBox.fresh {} (.all none)] = _
  unfold Surroundings.fresh Surroundings.answer
  rw [hcontext]
  show [unwritableBox.rank boxRoot {} >>= _] = _
  rw [hrank]
  rfl

end Detection

end GitPersona
