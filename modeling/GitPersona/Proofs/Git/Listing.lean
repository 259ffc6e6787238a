/-
The listing of a configuration reads back, as far as it gets through
unchanged. A listing is written entry by entry, each ended by NUL, and
within an entry the first line break parts the key from the value. What
is read from it is the map in which every key that occurs has the value of
its last entry, and no other key has one (`localConfig_reads_listing`).

The two separators work differently. NUL occurs in no key and no value,
so cutting at every NUL gives back the entries, and an empty piece after
the last one. A value may hold line breaks; a key holds none, so the cut
at the first one is where the key ends.

# Text mode

Before the listing is cut, text mode makes a line feed of every carriage
return, and of every pair of the two. It goes through entry by entry,
since NUL is neither (`lineFeeds_flatMap`), and leaves an entry without
carriage returns alone. Any other entry reads as something else, which
`ConfigEntry.ReadsAs` tells exactly: values lose their carriage returns,
and a key ends at its first one.
-/
import GitPersona.Git
import GitPersona.Proofs.Bindings
import Mathlib.Data.List.TakeWhile

namespace GitPersona

-- ================================================== statement vocabulary

/-- An entry of a configuration: a key, and a value unless the key
stands alone. -/
structure ConfigEntry where
  key : String
  value : Option String
  key_ne_empty : key ≠ ""
  line_notMem_key : '\n' ∉ key.toList
  nul_notMem_key : nul ∉ key.toList
  nul_notMem_value : ∀ v ∈ value, nul ∉ v.toList

namespace ConfigEntry

/-- What follows the key in a listing. -/
def rest (e : ConfigEntry) : List Char :=
  match e.value with
  | some v => '\n' :: v.toList
  | none => []

/-- An entry as a listing has it, without its end. -/
def written (e : ConfigEntry) : List Char :=
  e.key.toList ++ e.rest

/-- The value that an entry gives to its key: an absent one reads as
the empty text. -/
def given (e : ConfigEntry) : String :=
  e.value.getD ""

/-- An entry reads in text mode as a key and a value. -/
inductive ReadsAs (e : ConfigEntry) : String → String → Prop
  /-- A key without carriage returns is read whole. -/
  | whole :
      '\r' ∉ e.key.toList → e.ReadsAs e.key (readText e.given)
  /-- A key that ends in its first carriage return is read without it. -/
  | ended {start : List Char} :
      '\r' ∉ start → e.key.toList = start ++ ['\r'] →
      e.ReadsAs (String.ofList start) (readText e.given)
  /-- Of any other key, what follows the first carriage return goes
  to the value. -/
  | broken {start more : List Char} :
      '\r' ∉ start → e.key.toList = start ++ '\r' :: more → more ≠ [] →
      e.ReadsAs (String.ofList start)
        (readText (String.ofList (more ++ e.rest)))

/-- Text mode leaves an entry alone. -/
structure Plain (e : ConfigEntry) : Prop where
  key : '\r' ∉ e.key.toList
  given : '\r' ∉ e.given.toList

end ConfigEntry

/-- A listing of entries. -/
def listing (es : List ConfigEntry) : String :=
  String.ofList (es.flatMap fun e => e.written ++ [nul])

/-- The last entry for a key gives it a value. -/
def LastSets (es : List ConfigEntry) (key value : String) : Prop :=
  ∃ before e after, es = before ++ e :: after
    ∧ e.key = key ∧ e.given = value ∧ ∀ later ∈ after, later.key ≠ key

/-- The last entry that reads in text mode as one for a key
gives it a value. -/
def LastReads (es : List ConfigEntry) (key value : String) : Prop :=
  ∃ before e after, es = before ++ e :: after ∧ e.ReadsAs key value
    ∧ ∀ later ∈ after, ∀ value', ¬later.ReadsAs key value'

-- ============================================================= text mode

variable {cs ds : List Char} {c : Char}

/-- Other characters than a carriage return stay. -/
@[simp]
theorem lineFeeds_cons_of_ne (h : c ≠ '\r') :
    lineFeeds (c :: cs) = c :: lineFeeds cs := by
  rw [lineFeeds]
  · rintro - rfl
    exact absurd rfl h
  · exact h

/-- A carriage return without a line feed after it becomes one. -/
theorem lineFeeds_return_of_head (h : ∀ ds, cs ≠ '\n' :: ds) :
    lineFeeds ('\r' :: cs) = '\n' :: lineFeeds cs := by
  rw [lineFeeds]
  exact h

/-- A start without carriage returns stays. -/
theorem lineFeeds_append (h : '\r' ∉ cs) (ds : List Char) :
    lineFeeds (cs ++ ds) = cs ++ lineFeeds ds := by
  induction cs with
  | nil => rfl
  | cons c cs ih =>
      rw [List.mem_cons, not_or] at h
      rw [List.cons_append, lineFeeds_cons_of_ne (Ne.symm h.1), ih h.2]
      rfl

/-- A text without a carriage return stays as it is. -/
theorem lineFeeds_eq_self (h : '\r' ∉ cs) : lineFeeds cs = cs := by
  have happend := lineFeeds_append h []
  rwa [List.append_nil, lineFeeds, List.append_nil] at happend

/-- A character that is no part of a line end keeps apart what stands on
either side of it. -/
theorem lineFeeds_append_cons (hreturn : c ≠ '\r') (hline : c ≠ '\n')
    (cs ds : List Char) :
    lineFeeds (cs ++ c :: ds) = lineFeeds cs ++ c :: lineFeeds ds := by
  fun_induction lineFeeds cs with
  | case1 r ih => rw [List.cons_append, List.cons_append, lineFeeds, ih]; rfl
  | case2 r hr ih =>
      rw [List.cons_append, lineFeeds_return_of_head, ih]
      · rfl
      · cases r with
        | nil =>
            rintro ds heq
            exact hline (List.cons.inj heq).1
        | cons d r =>
            rintro ds heq
            exact hr r (by rw [(List.cons.inj heq).1])
  | case3 d r _ hd ih =>
      rw [List.cons_append, lineFeeds_cons_of_ne hd, ih]
      rfl
  | case4 => exact lineFeeds_cons_of_ne hreturn

/-- Reading in text mode brings in no characters but line feeds. -/
theorem eq_line_or_mem_of_mem_lineFeeds (h : c ∈ lineFeeds cs) :
    c = '\n' ∨ c ∈ cs := by
  fun_induction lineFeeds cs with
  | case1 r ih =>
      rcases List.mem_cons.1 h with rfl | hmem
      · exact Or.inl rfl
      · exact (ih hmem).imp_right fun hr => by simp [hr]
  | case2 r _ ih =>
      rcases List.mem_cons.1 h with rfl | hmem
      · exact Or.inl rfl
      · exact (ih hmem).imp_right fun hr => by simp [hr]
  | case3 d r _ _ ih =>
      rcases List.mem_cons.1 h with rfl | hmem
      · exact Or.inr List.mem_cons_self
      · exact (ih hmem).imp_right fun hr => by simp [hr]
  | case4 => cases h

/-- Reading in text mode leaves nothing only of nothing. -/
theorem lineFeeds_ne_nil (h : cs ≠ []) : lineFeeds cs ≠ [] := by
  fun_cases lineFeeds cs <;> simp_all

/-- Text mode goes through records that NUL ends one by one. -/
theorem lineFeeds_flatMap (pieces : List (List Char)) :
    lineFeeds (pieces.flatMap (· ++ [nul]))
      = (pieces.map lineFeeds).flatMap (· ++ [nul]) := by
  induction pieces with
  | nil => rfl
  | cons piece pieces ih =>
      rw [List.flatMap_cons, List.append_assoc, List.singleton_append,
        lineFeeds_append_cons (by decide) (by decide), ih, List.map_cons,
        List.flatMap_cons, List.append_assoc]
      rfl

-- ============================================================= one entry

variable {e : ConfigEntry} {es : List ConfigEntry} {key value : String}

/-- An entry is written without a NUL. -/
theorem nul_notMem_written : nul ∉ e.written := by
  unfold ConfigEntry.written ConfigEntry.rest
  rw [List.mem_append, not_or]
  refine ⟨e.nul_notMem_key, ?_⟩
  cases hvalue : e.value with
  | none => exact List.not_mem_nil
  | some v =>
      rw [List.mem_cons, not_or]
      exact ⟨by decide, e.nul_notMem_value v hvalue⟩

/-- No entry is written as nothing. -/
theorem written_ne_nil : e.written ≠ [] := by
  have hkey : e.key.toList ≠ [] := fun h =>
    e.key_ne_empty (String.toList_eq_nil_iff.1 h)
  exact List.append_ne_nil_of_left_ne_nil hkey _

/-- A record is a key, up to the first line feed, and a value. -/
theorem listingEntry_append {start more : List Char}
    (h : '\n' ∉ start) :
    listingEntry (start ++ '\n' :: more)
      = (String.ofList start, String.ofList more) := by
  have hstart : ∀ c ∈ start, (c != '\n') = true := fun c hc =>
    bne_iff_ne.2 fun heq => h (heq ▸ hc)
  unfold listingEntry
  rw [List.takeWhile_append_of_pos hstart,
    List.dropWhile_append_of_pos hstart,
    List.takeWhile_cons_of_neg (by decide),
    List.dropWhile_cons_of_neg (by decide), List.append_nil]
  rfl

/-- Without a line feed, all of an entry is its key. -/
theorem listingEntry_of_notMem (h : '\n' ∉ cs) :
    listingEntry cs = (String.ofList cs, "") := by
  have hall : ∀ c ∈ cs, (c != '\n') = true := fun c hc =>
    bne_iff_ne.2 fun heq => h (heq ▸ hc)
  unfold listingEntry
  rw [List.takeWhile_eq_self_iff.2 hall, List.dropWhile_eq_nil_iff.2 hall]
  rfl

/-- The key ends at the first line break, whatever the value holds. -/
theorem listingEntry_whole {start : List Char} (hline : '\n' ∉ start) :
    listingEntry (start ++ lineFeeds e.rest)
      = (String.ofList start, readText e.given) := by
  unfold ConfigEntry.rest ConfigEntry.given readText
  cases e.value with
  | none =>
      rw [lineFeeds, List.append_nil, listingEntry_of_notMem hline]
      rfl
  | some v =>
      rw [lineFeeds_cons_of_ne (by decide), listingEntry_append hline]
      rfl

/-- An entry is taken for the key and the value that it reads as. -/
theorem listingEntry_of_readsAs (h : e.ReadsAs key value) :
    listingEntry (lineFeeds e.written) = (key, value) := by
  unfold ConfigEntry.written
  have hline := e.line_notMem_key
  cases h with
  | whole hkey =>
      rw [lineFeeds_append hkey, listingEntry_whole hline,
        String.ofList_toList]
  | @ended start hstart hkey =>
      rw [hkey] at hline ⊢
      have hline' : '\n' ∉ start := fun hmem =>
        hline (List.mem_append_left _ hmem)
      rw [List.append_assoc, lineFeeds_append hstart,
        ← listingEntry_whole hline']
      unfold ConfigEntry.rest
      cases e.value with
      | none =>
          show listingEntry (start ++ ['\n']) = listingEntry (start ++ [])
          rw [List.append_nil, listingEntry_of_notMem hline',
            listingEntry_append hline']
      | some v =>
          rw [List.singleton_append, lineFeeds, lineFeeds_cons_of_ne]
          decide
  | @broken start more hstart hkey hmore =>
      rw [hkey] at hline ⊢
      have hline' : '\n' ∉ start := fun hmem =>
        hline (List.mem_append_left _ hmem)
      -- no line feed follows the return, so it is read as one itself
      have hhead : ∀ ds, more ++ e.rest ≠ '\n' :: ds := by
        rintro ds heq
        obtain ⟨c, more, rfl⟩ := List.exists_cons_of_ne_nil hmore
        obtain ⟨rfl, -⟩ := List.cons.inj heq
        simp at hline
      rw [List.append_assoc, lineFeeds_append hstart, List.cons_append,
        lineFeeds_return_of_head hhead, listingEntry_append hline',
        readText, String.toList_ofList]

/-- Every entry reads as some key and some value. -/
theorem exists_readsAs (e : ConfigEntry) :
    ∃ key value, e.ReadsAs key value := by
  by_cases hkey : '\r' ∈ e.key.toList
  · obtain ⟨start, more, hsplit, hstart⟩ := List.eq_append_cons_of_mem hkey
    by_cases hmore : more = []
    · exact ⟨_, _, .ended hstart (hmore ▸ hsplit)⟩
    · exact ⟨_, _, .broken hstart hsplit hmore⟩
  · exact ⟨_, _, .whole hkey⟩

/-- What an entry reads as is what it is taken for. -/
theorem readsAs_iff : e.ReadsAs key value
    ↔ listingEntry (lineFeeds e.written) = (key, value) := by
  refine ⟨listingEntry_of_readsAs, fun h => ?_⟩
  obtain ⟨key', value', hreads⟩ := exists_readsAs e
  rw [listingEntry_of_readsAs hreads, Prod.mk.injEq] at h
  obtain ⟨rfl, rfl⟩ := h
  exact hreads

/-- An entry that text mode leaves alone reads as it is. -/
theorem ConfigEntry.Plain.readsAs_iff (h : e.Plain) :
    e.ReadsAs key value ↔ e.key = key ∧ e.given = value := by
  have hgiven : readText e.given = e.given := by
    rw [readText, lineFeeds_eq_self h.given, String.ofList_toList]
  have hreads : e.ReadsAs e.key (readText e.given) := .whole h.key
  rw [hgiven, GitPersona.readsAs_iff] at hreads
  rw [GitPersona.readsAs_iff, hreads, Prod.mk.injEq]

-- =========================================================== the listing

/-- Cutting at every end gives back what was ended, and an empty piece
after the last end. -/
theorem splitOn_flatMap_concat {α : Type} [DecidableEq α] {a : α}
    {pieces : List (List α)} (h : ∀ piece ∈ pieces, a ∉ piece) :
    (pieces.flatMap (· ++ [a])).splitOn a = pieces ++ [[]] := by
  induction pieces with
  | nil => rfl
  | cons piece pieces ih =>
      have hpiece : piece.splitOn a = [piece] :=
        List.splitOn_eq_singleton (h piece List.mem_cons_self)
      have hrest := ih fun p hp => h p (List.mem_cons_of_mem _ hp)
      rw [List.flatMap_cons, List.append_assoc, List.singleton_append,
        List.splitOn_append_cons_self, hpiece, hrest]
      rfl

/-- A listing is taken apart into its entries, each as it reads. -/
theorem listingEntries_listing (es : List ConfigEntry) :
    listingEntries (readText (listing es)).toList
      = es.map fun e => listingEntry (lineFeeds e.written) := by
  have hwritten : (readText (listing es)).toList
      = (es.map fun e => lineFeeds e.written).flatMap (· ++ [nul]) := by
    rw [readText, listing, String.toList_ofList, String.toList_ofList,
      ← List.flatMap_map ConfigEntry.written (· ++ [nul]),
      lineFeeds_flatMap, List.map_map]
    rfl
  have hsplit : (readText (listing es)).toList.splitOn nul
      = (es.map fun e => lineFeeds e.written) ++ [[]] := by
    rw [hwritten]
    -- reading a text changes line ends alone, so no NUL comes in
    refine splitOn_flatMap_concat fun piece hpiece => ?_
    obtain ⟨e, -, rfl⟩ := List.mem_map.1 hpiece
    intro hmem
    rcases eq_line_or_mem_of_mem_lineFeeds hmem with heq | hnul
    · exact absurd heq (by decide)
    · exact nul_notMem_written hnul
  have hkept : (es.map fun e => lineFeeds e.written).filter (· != [])
      = es.map fun e => lineFeeds e.written := by
    refine List.filter_eq_self.2 fun piece hpiece => ?_
    obtain ⟨e, -, rfl⟩ := List.mem_map.1 hpiece
    exact bne_iff_ne.2 (lineFeeds_ne_nil written_ne_nil)
  calc listingEntries (readText (listing es)).toList
      = (((readText (listing es)).toList.splitOn nul).filter
          (· != [])).map listingEntry := rfl
    _ = (es.map fun e => lineFeeds e.written).map listingEntry := by
        rw [hsplit, List.filter_append, hkept]
        simp
    _ = es.map fun e => listingEntry (lineFeeds e.written) := by
        rw [List.map_map]
        rfl

/-- A key has the value of the last entry that reads as one for it. -/
theorem get?_readListing_eq_some_iff :
    (readListing (readText (listing es))).get? key = some value
      ↔ LastReads es key value := by
  rw [readListing, listingEntries_listing, Bindings.get?_ofList_eq_some_iff]
  constructor
  · intro h
    obtain ⟨before, after, hsplit, hafter⟩ := h
    obtain ⟨before, rest, rfl, -, hrest⟩ := List.map_eq_append_iff.1 hsplit
    obtain ⟨e, after, rfl, he, rfl⟩ := List.map_eq_cons_iff.1 hrest
    refine ⟨before, e, after, rfl, readsAs_iff.2 he,
      fun later hlater value' hreads => ?_⟩
    rw [readsAs_iff] at hreads
    exact hafter _ (List.mem_map.2 ⟨later, hlater, hreads⟩) rfl
  · intro h
    obtain ⟨before, e, after, rfl, hreads, hafter⟩ := h
    refine ⟨before.map fun e => listingEntry (lineFeeds e.written),
      after.map fun e => listingEntry (lineFeeds e.written), ?_,
      fun pair hpair => ?_⟩
    · rw [List.map_append, List.map_cons, readsAs_iff.1 hreads]
    · obtain ⟨later, hlater, rfl⟩ := List.mem_map.1 hpair
      exact fun heq => hafter later hlater _
        (readsAs_iff.2 (Prod.ext heq rfl))

/-- A key has no value when no entry reads as one for it. -/
theorem get?_readListing_eq_none_iff :
    (readListing (readText (listing es))).get? key = none
      ↔ ∀ e ∈ es, ∀ value, ¬e.ReadsAs key value := by
  rw [readListing, listingEntries_listing, Bindings.get?_ofList_eq_none_iff,
    List.forall_mem_map]
  refine forall₂_congr fun e _ => ?_
  constructor
  · intro h value hreads
    exact h (congrArg Prod.fst (readsAs_iff.1 hreads))
  · intro h heq
    exact h _ (readsAs_iff.2 (Prod.ext heq rfl))

/-- Where text mode leaves all entries alone, the last entry that reads as
one for a key is the last one for it. -/
theorem lastReads_iff_of_plain (h : ∀ e ∈ es, e.Plain) :
    LastReads es key value ↔ LastSets es key value := by
  unfold LastReads LastSets
  refine exists_congr fun before => exists_congr fun e =>
    exists_congr fun after => and_congr_right fun hsplit => ?_
  have hplain : e.Plain ∧ ∀ later ∈ after, later.Plain := by
    rw [hsplit] at h
    exact ⟨h e (by simp), fun later hlater => h later (by simp [hlater])⟩
  rw [hplain.1.readsAs_iff, and_assoc]
  refine and_congr_right fun _ => and_congr_right fun _ =>
    forall₂_congr fun later hlater => ?_
  simp [(hplain.2 later hlater).readsAs_iff]

/-- A listing that git answers with is read in text mode. -/
theorem localConfig_of_listing {g : Git} {directory : Path} {errors : String}
    (hreading : g.reading = readText)
    (hanswer : g.answer (g.command directory Git.configArguments)
      = .finished 0 (listing es) errors) :
    g.localConfig directory = .ok (readListing (readText (listing es))) := by
  have hask : g.ask directory Git.configArguments
      = .ok (0, readText (listing es), readText errors) := by
    unfold Git.ask
    rw [hanswer, hreading]
  unfold Git.localConfig
  rw [hask]
  rfl

-- =========================================================== main result

/-- When git answers with a listing of entries, the local configuration
gives each key the value of the last entry that reads in text mode as one
for it, and it has no other keys. Where no carriage return is in keys and
values, that is the value of the last entry for the key, and every key
that occurs has one. -/
theorem localConfig_reads_listing (g : Git) (directory : Path)
    (es : List ConfigEntry) (errors : String)
    (hreading : g.reading = readText)
    (hanswer : g.answer (g.command directory Git.configArguments)
      = .finished 0 (listing es) errors) :
    ∃ config, g.localConfig directory = .ok config
      ∧ (∀ key value, config.get? key = some value
        ↔ LastReads es key value)
      ∧ (∀ key, config.get? key = none
        ↔ ∀ e ∈ es, ∀ value, ¬e.ReadsAs key value)
      ∧ ((∀ e ∈ es, e.Plain) →
        (∀ key value, config.get? key = some value
            ↔ LastSets es key value)
          ∧ ∀ key, config.get? key = none ↔ ∀ e ∈ es, e.key ≠ key) := by
  refine ⟨readListing (readText (listing es)),
    localConfig_of_listing hreading hanswer,
    fun key value => get?_readListing_eq_some_iff,
    fun key => get?_readListing_eq_none_iff, fun hplain => ⟨?_, ?_⟩⟩
  · intro key value
    rw [get?_readListing_eq_some_iff, lastReads_iff_of_plain hplain]
  · intro key
    rw [get?_readListing_eq_none_iff]
    refine forall₂_congr fun e he => ?_
    simp [(hplain e he).readsAs_iff]

/-- A key that is set twice, the second time over several lines, and one
that stands alone. -/
def notedEntries : List ConfigEntry :=
  [⟨"custom.note", some "draft", by decide, by decide, by decide,
      by decide⟩,
    ⟨"core.bare", none, by decide, by decide, by decide, by decide⟩,
    ⟨"custom.note", some "first line\n\nlast = line\n", by decide,
      by decide, by decide, by decide⟩]

/-- A git that answers with a listing. -/
def gitListing (es : List ConfigEntry) : Git where
  answer := fun _ => .finished 0 (listing es) ""

/-- The last entry for a key decides, over several lines too, and what stands
alone is empty. -/
theorem localConfig_notedEntries :
    ∃ config, (gitListing notedEntries).localConfig .root = .ok config
      ∧ config.get? "custom.note" = some "first line\n\nlast = line\n"
      ∧ config.get? "core.bare" = some "" ∧ config.get? "core" = none := by
  obtain ⟨config, hconfig, -, -, hverbatim⟩ := localConfig_reads_listing
    (gitListing notedEntries) .root notedEntries "" rfl rfl
  have hplain : ∀ e ∈ notedEntries, e.Plain := by
    have hall : ∀ e ∈ notedEntries,
        '\r' ∉ e.key.toList ∧ '\r' ∉ e.given.toList := by
      decide
    exact fun e he => ⟨(hall e he).1, (hall e he).2⟩
  obtain ⟨hsome, hnone⟩ := hverbatim hplain
  refine ⟨config, hconfig, ?_, ?_, ?_⟩
  · exact (hsome _ _).2 ⟨notedEntries.take 2, _, [], rfl, rfl, rfl, by simp⟩
  · refine (hsome _ _).2
      ⟨notedEntries.take 1, _, notedEntries.drop 2, rfl, rfl, rfl, ?_⟩
    decide
  · refine (hnone _).2 ?_
    decide

/-- A value with a carriage return in it. -/
def returnedEntry : ConfigEntry :=
  ⟨"custom.note", some "a\rb", by decide, by decide, by decide, by decide⟩

/-- The value is read with a line feed instead. -/
theorem localConfig_returnedEntry :
    LastSets [returnedEntry] "custom.note" "a\rb"
      ∧ ∃ config, (gitListing [returnedEntry]).localConfig .root
          = .ok config
        ∧ config.get? "custom.note" = some "a\nb" := by
  have hconfig : (gitListing [returnedEntry]).localConfig .root
      = .ok (readListing (readText (listing [returnedEntry]))) :=
    localConfig_of_listing rfl rfl
  refine ⟨⟨[], _, [], rfl, rfl, rfl, by simp⟩, _, hconfig, ?_⟩
  refine get?_readListing_eq_some_iff.2
    ⟨[], returnedEntry, [], rfl, ?_, by simp⟩
  have hread : readText returnedEntry.given = "a\nb" := by decide
  rw [← hread]
  exact .whole (by decide)

end GitPersona
