/-
Mappings by their text keys. Writing a pair changes what its key is
looked up as and nothing else (`lookupText_put_self`,
`lookupText_put_of_ne`), so a mapping laid over another answers first
(`lookupText_overlay`). A mapping in which no text key occurs twice
(`TextKeysOnce`) keeps that when a pair is written, and then its pairs
are exactly what can be looked up in it.
-/
import GitPersona.Document
import Mathlib.Data.List.Induction

namespace GitPersona.Document

variable {name : String} {k v d : Document}
    {es below above : List (Document × Document)}

-- ================================================================= keys

/-- Only the text itself is the same key as a text. -/
theorem sameKey_text_iff : k.sameKey (.text name) = true ↔ k = .text name := by
  cases k <;> simp [sameKey, key?]

theorem text_sameKey_iff : (text name).sameKey k = true ↔ k = .text name := by
  cases k with
  | text s =>
      simp only [sameKey, key?, beq_iff_eq, text.injEq]
      exact eq_comm
  | _ => simp [sameKey, key?]

-- ============================================================== lookups

/-- A pair for the text that stands first is found. -/
theorem lookupText_cons_self :
    lookupText name ((.text name, v) :: es) = some v :=
  if_pos rfl

/-- A pair for another key is passed over. -/
theorem lookupText_cons_of_ne (h : k ≠ .text name) :
    lookupText name ((k, v) :: es) = lookupText name es := by
  cases k with
  | text s => exact if_neg fun hs => h (congrArg text hs)
  | _ => rfl

/-- A text that was put is found with its value. -/
theorem lookupText_put_self :
    lookupText name (put (.text name) v es) = some v := by
  induction es with
  | nil => exact lookupText_cons_self
  | cons e es ih =>
      obtain ⟨k, u⟩ := e
      unfold put
      split
      · next hsame =>
        rw [sameKey_text_iff.1 hsame]
        exact lookupText_cons_self
      · next hother =>
        rw [lookupText_cons_of_ne fun hk => hother (sameKey_text_iff.2 hk)]
        exact ih

/-- Putting a key leaves the others alone. -/
theorem lookupText_put_of_ne (h : k ≠ .text name) :
    lookupText name (put k v es) = lookupText name es := by
  induction es with
  | nil => exact lookupText_cons_of_ne h
  | cons e es ih =>
      obtain ⟨k', u⟩ := e
      unfold put
      split
      · next hsame =>
        have hk' : k' ≠ .text name :=
          fun hk' => h (text_sameKey_iff.1 (hk' ▸ hsame))
        rw [lookupText_cons_of_ne hk', lookupText_cons_of_ne hk']
      · by_cases hk' : k' = .text name
        · rw [hk', lookupText_cons_self, lookupText_cons_self]
        · rw [lookupText_cons_of_ne hk', lookupText_cons_of_ne hk', ih]

-- ============================================================= overlays

/-- The last pair laid over is put last. -/
theorem overlay_concat (below above : List (Document × Document))
    (e : Document × Document) :
    overlay below (above ++ [e]) = put e.1 e.2 (overlay below above) := by
  unfold overlay
  rw [List.foldl_append, List.foldl_cons, List.foldl_nil]

/-- What is laid over answers first. -/
theorem lookupText_overlay (below above : List (Document × Document)) :
    lookupText name (overlay below above)
      = (lookupText name (ofPairs above)).or (lookupText name below) := by
  induction above using List.reverseRecOn with
  | nil => rfl
  | append_singleton above e ih =>
      obtain ⟨k, v⟩ := e
      have hpairs : ofPairs (above ++ [(k, v)]) = put k v (ofPairs above) :=
        overlay_concat [] above (k, v)
      rw [overlay_concat, hpairs]
      by_cases hk : k = .text name
      · rw [hk, lookupText_put_self, lookupText_put_self, Option.some_or]
      · rw [lookupText_put_of_ne hk, lookupText_put_of_ne hk, ih]

/-- A key that is there, and always with one value, is looked up
as that value. -/
theorem lookupText_ofPairs (hthere : ∃ u, (.text name, u) ∈ es)
    (hvalue : ∀ u, (.text name, u) ∈ es → u = v) :
    lookupText name (ofPairs es) = some v := by
  induction es using List.reverseRecOn with
  | nil =>
      obtain ⟨u, hu⟩ := hthere
      cases hu
  | append_singleton es e ih =>
      obtain ⟨k, w⟩ := e
      have hpairs : ofPairs (es ++ [(k, w)]) = put k w (ofPairs es) :=
        overlay_concat [] es (k, w)
      rw [hpairs]
      by_cases hk : k = .text name
      · rw [hk, lookupText_put_self, hvalue w (by simp [hk])]
      · rw [lookupText_put_of_ne hk]
        refine ih ?_ fun u hu => hvalue u (List.mem_append_left _ hu)
        obtain ⟨u, hu⟩ := hthere
        rcases List.mem_append.1 hu with hmem | hmem
        · exact ⟨u, hmem⟩
        · exact absurd (congrArg Prod.fst (List.mem_singleton.1 hmem)).symm hk

-- ======================================================== distinct keys

/-- The text that a key is, if it is one. -/
def asText? : Document → Option String
  | text s => some s
  | _ => none

/-- A document is read as a text when it is that text. -/
theorem asText?_eq_some_iff : k.asText? = some name ↔ k = .text name := by
  cases k <;> simp [asText?]

/-- The text keys of a mapping, in order. -/
def textKeys (es : List (Document × Document)) : List String :=
  es.filterMap fun e => e.1.asText?

/-- The text keys of pairs are those of the first and of the others. -/
theorem textKeys_cons (k v : Document) (es : List (Document × Document)) :
    textKeys ((k, v) :: es) = k.asText?.toList ++ textKeys es := by
  cases k <;> rfl

/-- No text key occurs twice. -/
def TextKeysOnce (es : List (Document × Document)) : Prop :=
  (textKeys es).Nodup

/-- The text keys are those that stand in a pair. -/
theorem mem_textKeys_iff : name ∈ textKeys es ↔ ∃ v, (.text name, v) ∈ es := by
  unfold textKeys
  rw [List.mem_filterMap]
  constructor
  · rintro ⟨⟨k, v⟩, hmem, hk⟩
    exact ⟨v, asText?_eq_some_iff.1 hk ▸ hmem⟩
  · rintro ⟨v, hmem⟩
    exact ⟨(.text name, v), hmem, rfl⟩

/-- Writing a pair adds at most its own key. -/
theorem mem_put {e : Document × Document} (h : e ∈ put k v es) :
    e.1 = k ∨ ∃ u, (e.1, u) ∈ es := by
  induction es with
  | nil => exact Or.inl (congrArg Prod.fst (List.mem_singleton.1 h))
  | cons e' es ih =>
      obtain ⟨k', u'⟩ := e'
      unfold put at h
      split at h
      · rcases List.mem_cons.1 h with rfl | hmem
        · exact Or.inr ⟨u', List.mem_cons_self⟩
        · exact Or.inr ⟨e.2, List.mem_cons_of_mem _ hmem⟩
      · rcases List.mem_cons.1 h with rfl | hmem
        · exact Or.inr ⟨u', List.mem_cons_self⟩
        · exact (ih hmem).imp_right fun ⟨u, hu⟩ =>
            ⟨u, List.mem_cons_of_mem _ hu⟩

/-- A key of two layers is one of either. -/
theorem mem_overlay {e : Document × Document} (h : e ∈ overlay below above) :
    (∃ u, (e.1, u) ∈ above) ∨ ∃ u, (e.1, u) ∈ below := by
  induction above generalizing below with
  | nil => exact Or.inr ⟨e.2, h⟩
  | cons e' above ih =>
      rcases ih h with ⟨u, hmem⟩ | ⟨u, hmem⟩
      · exact Or.inl ⟨u, List.mem_cons_of_mem _ hmem⟩
      · rcases mem_put hmem with heq | hbelow
        · exact Or.inl ⟨e'.2, heq ▸ List.mem_cons_self⟩
        · exact Or.inr hbelow

/-- Putting a key does not make it stand twice. -/
theorem TextKeysOnce.put (h : TextKeysOnce es) :
    TextKeysOnce (put k v es) := by
  induction es with
  | nil => cases k <;> simp [TextKeysOnce, Document.put, textKeys, asText?]
  | cons e es ih =>
      obtain ⟨k', u⟩ := e
      have hrest : TextKeysOnce es :=
        h.sublist ((List.sublist_cons_self _ _).filterMap _)
      unfold Document.put
      split
      · exact h
      · next hother =>
        unfold TextKeysOnce at h ⊢
        rw [textKeys_cons] at h ⊢
        cases hk' : k'.asText? with
        | none => exact ih hrest
        | some s =>
            rw [hk'] at h
            refine List.nodup_cons.2 ⟨fun hmem => ?_, ih hrest⟩
            obtain ⟨w, hw⟩ := mem_textKeys_iff.1 hmem
            rcases mem_put hw with hk | hmem'
            · rw [asText?_eq_some_iff.1 hk', text_sameKey_iff] at hother
              exact hother hk.symm
            · exact (List.nodup_cons.1 h).1 (mem_textKeys_iff.2 hmem')

/-- Laying pairs over others makes no key stand twice. -/
theorem textKeysOnce_overlay (h : TextKeysOnce below) :
    TextKeysOnce (overlay below above) := by
  induction above generalizing below with
  | nil => exact h
  | cons e above ih => exact ih h.put

/-- In a mapping made of pairs no text key stands twice. -/
theorem textKeysOnce_ofPairs (es : List (Document × Document)) :
    TextKeysOnce (ofPairs es) :=
  textKeysOnce_overlay List.nodup_nil

/-- Where no text key occurs twice, a key is looked up as the value
of its pair. -/
theorem TextKeysOnce.lookupText_eq (h : TextKeysOnce es)
    (hmem : (.text name, v) ∈ es) :
    lookupText name es = some v := by
  induction es with
  | nil => cases hmem
  | cons e es ih =>
      obtain ⟨k, u⟩ := e
      have hrest : TextKeysOnce es :=
        h.sublist ((List.sublist_cons_self _ _).filterMap _)
      rcases List.mem_cons.1 hmem with heq | hmem'
      · cases heq
        exact lookupText_cons_self
      · have hk : k ≠ .text name := by
          rintro rfl
          exact (List.nodup_cons.1 h).1 (mem_textKeys_iff.2 ⟨v, hmem'⟩)
        rw [lookupText_cons_of_ne hk]
        exact ih hrest hmem'

/-- What is found stands in a pair. -/
theorem mem_of_lookupText (h : lookupText name es = some v) :
    (.text name, v) ∈ es := by
  induction es with
  | nil => cases h
  | cons e es ih =>
      obtain ⟨k, u⟩ := e
      by_cases hk : k = .text name
      · rw [hk, lookupText_cons_self] at h
        cases h
        rw [hk]
        exact List.mem_cons_self
      · rw [lookupText_cons_of_ne hk] at h
        exact List.mem_cons_of_mem _ (ih h)

end GitPersona.Document
