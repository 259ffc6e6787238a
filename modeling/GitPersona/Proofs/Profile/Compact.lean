/-
Compact forms tell profiles apart. Every kind of value that a compact
object holds is delimited against every other of its kind, so an object
is taken apart field by field (`compactObject_append_inj`), a profile is
determined by its fields, and a list of profiles by what its signature
is computed from (`listPayload_injective`), also as the octets that are
digested, profile by profile (`listOctets_faithful`). The NUL after each
profile is not needed for it: a compact object already ends where it
ends.
-/
import GitPersona.Profile
import GitPersona.Proofs.Json.Members

namespace GitPersona.Profile

open Json (Delimited)

variable {close : Char}

-- ================================================================ values

/-- Where a written text ends can be told, whatever follows. -/
theorem compactText_append_inj {s t : String} {r r' : List Char}
    (h : compactText s ++ r = compactText t ++ r') : s = t ∧ r = r' := by
  obtain ⟨hs, hr⟩ := Json.plain_append_inj h
  exact ⟨String.toList_inj.1 hs, hr⟩

/-- Different texts are written differently. -/
theorem compactText_injective {s t : String}
    (h : compactText s = compactText t) : s = t :=
  (compactText_append_inj (r := []) (congrArg (· ++ []) h)).1

/-- Before a closing mark, texts written alike are followed alike. -/
theorem delimited_compactText (s t : String) :
    Delimited close (compactText s) (compactText t) := by
  intro r r' _ _ h
  obtain ⟨rfl, rfl⟩ := compactText_append_inj h
  exact ⟨rfl, rfl⟩

/-- Different optional texts are written differently. -/
theorem compactOption_injective {s t : Option String} (h : compactOption
    s = compactOption t) :
    s = t := by
  cases s with
  | none =>
      cases t with
      | none => rfl
      | some t => exact absurd (List.cons.inj h).1 (by decide)
  | some s =>
      cases t with
      | none => exact absurd (List.cons.inj h).1 (by decide)
      | some t => exact congrArg some (compactText_injective h)

/-- Before a closing mark, optional texts written alike are followed alike. -/
theorem delimited_compactOption (s t : Option String) :
    Delimited close (compactOption s) (compactOption t) := by
  cases s with
  | none =>
      cases t with
      | none => exact fun r r' _ _ h => ⟨rfl, List.append_cancel_left h⟩
      | some t => exact fun r r'
          _ _ h => absurd (List.cons.inj h).1 (by decide)
  | some s =>
      cases t with
      | none => exact fun r r' _ _ h => absurd (List.cons.inj h).1 (by decide)
      | some t => exact delimited_compactText s t

/-- The truth values are written differently. -/
theorem compactBool_injective {a b : Bool}
    (h : compactBool a = compactBool b) : a = b := by
  revert a b
  decide

/-- Before a closing mark, truth values written alike are followed alike. -/
theorem delimited_compactBool (a b : Bool) :
    Delimited close (compactBool a) (compactBool b) := by
  intro r r' _ _ h
  cases a with
  | false =>
      cases b with
      | false => exact ⟨rfl, List.append_cancel_left h⟩
      | true => exact absurd (List.cons.inj h).1 (by decide)
  | true =>
      cases b with
      | false => exact absurd (List.cons.inj h).1 (by decide)
      | true => exact ⟨rfl, List.append_cancel_left h⟩

/-- Where a written list ends can be told, whatever follows. -/
theorem compactList_append_inj {ss ts : List String} {r r' : List Char}
    (h : compactList ss ++ r = compactList ts ++ r') : ss = ts ∧ r = r' := by
  have hquote : ∀ us : List String, ∀ x ∈ us.map compactText,
      x.head? = some '"' := by
    intro us x hx
    obtain ⟨u, -, rfl⟩ := List.mem_map.1 hx
    rfl
  have hpairs : ∀ p ∈ (ss.map compactText).zip (ts.map compactText),
      Delimited ']' p.1 p.2 := by
    intro p hp
    rw [List.zip_map] at hp
    obtain ⟨⟨s, t⟩, -, rfl⟩ := List.mem_map.1 hp
    exact delimited_compactText s t
  have hbody : [','].intercalate (ss.map compactText) ++ ']' :: r
      = [','].intercalate (ts.map compactText) ++ ']' :: r' := by
    simpa [compactList] using h
  obtain ⟨hmap, rfl⟩ :=
    Json.joined_append_inj (by decide) (by decide) (hquote ss) (hquote ts)
      hpairs hbody
  exact ⟨List.map_injective_iff.2 (fun _ _ => compactText_injective) hmap, rfl⟩

/-- Different lists are written differently. -/
theorem compactList_injective {ss ts : List String}
    (h : compactList ss = compactList ts) :
    ss = ts :=
  (compactList_append_inj (r := []) (congrArg (· ++ []) h)).1

/-- Before a closing mark, lists written alike are followed alike. -/
theorem delimited_compactList (ss ts : List String) :
    Delimited close (compactList ss) (compactList ts) := by
  intro r r' _ _ h
  obtain ⟨rfl, rfl⟩ := compactList_append_inj h
  exact ⟨rfl, rfl⟩

-- =============================================================== objects

/-- Texts that start with an object agree only field by field. -/
theorem compactObject_append_inj {fs gs : List (String × List Char)}
    {r r' : List Char}
    (hdelimited : ∀ p ∈ fs.zip gs, Delimited '}' p.1.2 p.2.2)
    (h : compactObject fs ++ r = compactObject gs ++ r') :
    fs = gs ∧ r = r' := by
  have hbody : [','].intercalate
      (fs.map fun f => Json.plain f.1.toList ++ ([':'] ++ f.2)) ++ '}' :: r
      = [','].intercalate
        (gs.map fun f => Json.plain f.1.toList ++ ([':'] ++ f.2))
        ++ '}' :: r' := by
    simpa [compactObject, compactText] using h
  exact Json.fields_append_inj (fun _ => rfl) Json.plain_append_inj hdelimited
    hbody

/-- Each kind of key has a name of its own. -/
theorem keyTypeName_injective {a b : KeyType}
    (h : a.name = b.name) : a = b := by
  cases a <;> cases b <;> first | rfl | exact absurd h (by decide)

/-- Each scope has a name of its own. -/
theorem scopeName_injective {a b : Scope} (h : a.name = b.name) : a = b := by
  cases a <;> cases b <;> first | rfl | exact absurd h (by decide)

/-- Field by field, what two profiles have written is delimited. -/
theorem delimited_compactFields (p q : Profile) :
    ∀ x ∈ p.compactFields.zip q.compactFields, Delimited '}' x.1.2 x.2.2 := by
  simp only [compactFields, List.zip_cons_cons, List.zip_nil_left,
    List.forall_mem_cons, List.not_mem_nil, false_implies, implies_true,
    and_true, delimited_compactText, delimited_compactOption,
    delimited_compactList, delimited_compactBool]

/-- Different profiles are written differently, field by field. -/
theorem compactFields_injective {p q : Profile}
    (h : p.compactFields = q.compactFields) :
    p = q := by
  simp only [compactFields, List.cons.injEq, Prod.mk.injEq, true_and, and_true]
    at h
  obtain ⟨hname, huser, hemail, hkey, hsigning, hvault, hssh, hscope, hrepos,
    hpatterns, hdirs,
    hhosts, hone⟩ := h
  cases p
  cases q
  simp only [Profile.mk.injEq]
  exact ⟨compactText_injective hname, compactOption_injective huser,
    compactText_injective hemail,
    keyTypeName_injective (compactText_injective hkey),
    compactOption_injective hsigning,
    compactOption_injective hvault, compactOption_injective hssh,
    scopeName_injective (compactText_injective hscope),
    compactList_injective hrepos,
    compactList_injective hpatterns, compactList_injective hdirs,
    compactList_injective hhosts,
    compactBool_injective hone⟩

/-- Texts that start with compact profiles agree only if the profiles do. -/
theorem compact_append_inj {p q : Profile} {r r' : List Char}
    (h : p.compact ++ r = q.compact ++ r') : p = q ∧ r = r' := by
  obtain ⟨hfields, hr⟩ :=
    compactObject_append_inj (delimited_compactFields p q) h
  exact ⟨compactFields_injective hfields, hr⟩

-- ================================================================= lists

/-- Lists of profiles with one signature payload are equal. -/
theorem listPayload_injective {ps qs : List Profile}
    (h : listPayload ps = listPayload qs) :
    ps = qs := by
  induction ps generalizing qs with
  | nil =>
      cases qs with
      | nil => rfl
      | cons q qs => cases h
  | cons p ps ih =>
      cases qs with
      | nil => cases h
      | cons q qs =>
          rw [listPayload, listPayload, List.flatMap_cons, List.flatMap_cons,
            List.append_assoc, List.append_assoc] at h
          obtain ⟨rfl, hrest⟩ := compact_append_inj h
          exact congrArg _ (ih (List.cons.inj hrest).2)

-- ================================================================ octets

/-- The octets that the signature of a list digests: those of each compact
form, then a zero. -/
def listOctets (ps : List Profile) : List UInt8 :=
  ps.flatMap fun p => Digest.utf8 p.compact ++ [0]

/-- The octets of a list of profiles are those of its text. -/
theorem utf8_listPayload (ps : List Profile) :
    Digest.utf8 (listPayload ps) = listOctets ps := by
  have hzero : Digest.utf8 [Char.ofNat 0] = [0] := by decide
  unfold listPayload listOctets
  rw [Digest.utf8, List.flatMap_assoc]
  refine congrArg (List.flatMap · ps) (funext fun p => ?_)
  rw [← hzero, Digest.utf8, Digest.utf8, ← List.flatMap_append]

/-- The signature of a list digests its octets, and two lists have the same
octets exactly when they have the same profiles, place by place. -/
theorem listOctets_faithful (ps qs : List Profile) :
    listSignature ps = Digest.sha256Hex (listOctets ps)
      ∧ (listOctets ps = listOctets qs ↔
          ps.length = qs.length
            ∧ ∀ (i : Nat) (hp : i < ps.length) (hq : i < qs.length),
              ps[i] = qs[i]) := by
  refine ⟨?_, ?_, ?_⟩
  · rw [listSignature, utf8_listPayload]
  · intro h
    rw [← utf8_listPayload, ← utf8_listPayload] at h
    rw [listPayload_injective (Digest.utf8_injective h)]
    exact ⟨rfl, fun _ _ _ => rfl⟩
  · rintro ⟨hlength, hplaces⟩
    rw [List.ext_getElem hlength hplaces]

end GitPersona.Profile
