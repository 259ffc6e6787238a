/-
What reading settings promises. A field is either absent, and then has
its default, or was read without an issue; so what every default
satisfies, and every reading that finds no issue, is satisfied by the
field (`field_ensures`). Settings that were read without an issue are
valid, section by section (`readSettings_ensures`).
-/
import GitPersona.Settings.Decode

namespace GitPersona

/-- The defaults for lookup pass their own checks. -/
theorem LookupSettings.valid_default : LookupSettings.Valid {} := by
  constructor <;> decide

namespace Settings

variable {α β : Type}

-- ======================================================= checked values

/-- The issues of two readings come one after another. -/
@[simp]
theorem issues_bind (x : Checked α) (f : α → Checked β) :
    (x >>= f).issues = x.issues ++ (f x.value).issues :=
  rfl

@[simp]
theorem issues_pure (a : α) : (pure a : Checked α).issues = [] :=
  rfl

/-- A reading that finds no issue has a value of the given kind. -/
def Checked.Ensures (x : Checked α) (p : α → Prop) : Prop :=
  x.issues = [] → p x.value

/-- Where a value stands does not change what is ensured of it. -/
theorem Checked.Ensures.under {x : Checked α} {p : α → Prop} (h : x.Ensures p)
    (s : Step) :
    (x.under s).Ensures p := by
  intro hissues
  exact h (List.map_eq_nil_iff.1 hissues)

/-- A value that is refused ensures anything. -/
theorem Checked.ensures_wrong [Inhabited α] (problem : Problem)
    (p : α → Prop) :
    (Checked.wrong problem : Checked α).Ensures p := by
  intro hissues
  cases hissues

/-- A field ensures what its reading and its default do. -/
theorem field_ensures {fields : Fields} {name : String} {default : α}
    {read : Document → Checked α} {p : α → Prop} (hdefault : p default)
    (hread : ∀ d, (read d).Ensures p) :
    (field fields name default read).Ensures p := by
  unfold field
  cases Document.lookupText name fields with
  | none => exact fun _ => hdefault
  | some d => exact (hread d).under _

-- ============================================================== bounds

/-- A share is between zero and one. -/
theorem readShare_ensures (d : Document) :
    (readShare d).Ensures fun x => 0.0 ≤ x ∧ x ≤ 1.0 := by
  unfold readShare
  dsimp only
  split
  · next hread => exact fun hissues => absurd hissues hread
  · split
    · exact Checked.ensures_wrong _ _
    · next hhigh =>
      split
      · exact Checked.ensures_wrong _ _
      · next hlow =>
        intro _
        constructor
        · simpa using hlow
        · simpa using hhigh

/-- A positive number is positive. -/
theorem readPositive_ensures (d : Document) :
    (readPositive d).Ensures fun x => 0.0 < x := by
  unfold readPositive
  dsimp only
  split
  · exact Checked.ensures_wrong _ _
  · next hnot =>
    intro hissues
    simpa [hissues] using hnot

/-- A count is at least one. -/
theorem readCount_ensures (d : Document) :
    (readCount d).Ensures fun n => 1 ≤ n := by
  unfold readCount
  dsimp only
  split
  · exact Checked.ensures_wrong _ _
  · next hnot =>
    intro hissues
    simpa [hissues] using hnot

/-- A text that is not to be empty is not. -/
theorem readNonemptyText_ensures (d : Document) :
    (readNonemptyText d).Ensures fun s => s ≠ "" := by
  unfold readNonemptyText
  dsimp only
  split
  · exact Checked.ensures_wrong _ _
  · next hnot =>
    intro hissues
    simpa [hissues] using hnot

-- ==================================================== options and lists

/-- A value that may be left out ensures what its reading does. -/
theorem readOption_ensures {read : Document → Checked α} {p : α → Prop}
    (hread : ∀ d, (read d).Ensures p) (d : Document) :
    (readOption read d).Ensures fun o => ∀ a ∈ o, p a := by
  unfold readOption
  split
  · intro _ a ha
    cases ha
  · intro hissues a ha
    cases ha
    exact hread d (List.append_eq_nil_iff.1 hissues).1

/-- Items read one by one ensure what the reading of each does. -/
theorem each_ensures {read : β → Checked α} {p : α → Prop}
    (hread : ∀ b, (read b).Ensures p)
    (n : Nat) (bs : List β) :
    (Checked.each read n bs).Ensures fun as => ∀ a ∈ as, p a := by
  induction bs generalizing n with
  | nil =>
      intro _ a ha
      cases ha
  | cons b bs ih =>
      intro hissues a ha
      simp only [Checked.each, issues_bind, issues_pure, List.append_nil,
        List.append_eq_nil_iff] at hissues
      obtain ⟨hhead, htail⟩ := hissues
      rcases List.mem_cons.1 ha with rfl | hmem
      · exact (hread b).under _ hhead
      · exact ih (n + 1) htail a hmem

/-- The items of a list ensure what their reading does. -/
theorem readList_ensures {read : Document → Checked α} {p : α → Prop}
    (hread : ∀ d, (read d).Ensures p) (d : Document) :
    (readList read d).Ensures fun as => ∀ a ∈ as, p a := by
  unfold readList
  split
  · exact each_ensures hread 0 _
  · exact each_ensures hread 0 _
  · exact Checked.ensures_wrong _ _

/-- There is at least one algorithm. -/
theorem readAlgorithms_ensures (d : Document) :
    (readAlgorithms d).Ensures fun as => as ≠ [] := by
  unfold readAlgorithms
  dsimp only
  split
  · exact Checked.ensures_wrong _ _
  · next hnot =>
    intro hissues
    simpa [hissues] using hnot

-- ============================================================ detection

/-- Detection settings that were read without an issue are valid. -/
theorem readDetection_ensures (fields : Fields) :
    (readDetection fields).Ensures DetectionSettings.Valid := by
  have hshare : (field fields "min_confidence" 0.6 readShare).Ensures
      fun x => 0.0 ≤ x ∧ x ≤ 1.0 :=
    field_ensures (by decide) readShare_ensures
  have hlifetime :
      (field fields "cache_ttl_seconds" 300.0 readPositive).Ensures
      fun x => 0.0 < x :=
    field_ensures (by decide) readPositive_ensures
  have hcapacity : (field fields "cache_max_entries" 256 readCount).Ensures
      fun n => 1 ≤ n :=
    field_ensures (by decide) readCount_ensures
  intro hissues
  simp only [readDetection, issues_bind, issues_pure, List.append_eq_nil_iff]
    at hissues
  obtain ⟨hfloor, -, -, -, -, -, -, hlife, hmax, -⟩ := hissues
  obtain ⟨hlow, hhigh⟩ := hshare hfloor
  exact ⟨hlow, hhigh, hlifetime hlife, hcapacity hmax⟩

-- ======================================================= other sections

/-- Lookup settings that were read without an issue are valid. -/
theorem readLookup_ensures (fields : Fields) :
    (readLookup fields).Ensures LookupSettings.Valid := by
  have hshare : (field fields "min_score" 0.0 readShare).Ensures fun x =>
      0.0 ≤ x ∧ x ≤ 1.0 :=
    field_ensures (by decide) readShare_ensures
  have hcount :
      (field fields "max_results" none (readOption readCount)).Ensures
      fun o => ∀ n ∈ o, 1 ≤ n :=
    field_ensures (fun _ hn => by cases hn)
      (readOption_ensures readCount_ensures)
  have halgorithms :
      (field fields "algorithms" [.exact, .leading, .substring, .levenshtein]
      readAlgorithms).Ensures fun as => as ≠ [] :=
    field_ensures (by simp) readAlgorithms_ensures
  intro hissues
  simp only [readLookup, issues_bind, issues_pure, List.append_eq_nil_iff]
    at hissues
  obtain ⟨-, -, -, -, -, hfloor, hmax, hlist, -⟩ := hissues
  obtain ⟨hlow, hhigh⟩ := hshare hfloor
  exact ⟨hlow, hhigh, hcount hmax, halgorithms hlist⟩

/-- A profile that was read without an issue has a name. -/
theorem readProfile_ensures (fields : Fields) :
    (readProfile fields).Ensures fun p => p.name ≠ "" := by
  have hname : (required fields "name" readNonemptyText).Ensures fun s =>
      s ≠ "" := by
    unfold required
    cases Document.lookupText "name" fields with
    | none => exact (Checked.ensures_wrong _ _).under _
    | some d => exact (readNonemptyText_ensures d).under _
  intro hissues
  simp only [readProfile, issues_bind, issues_pure, List.append_eq_nil_iff]
    at hissues
  exact hname hissues.1

-- ============================================================ all together

/-- A mapping ensures what the reading of its fields does. -/
theorem readMapping_ensures [Inhabited α] {part : Section}
    {read : Fields → Checked α}
    {p : α → Prop} (hread : ∀ fields, (read fields).Ensures p) (d : Document) :
    (readMapping part read d).Ensures p := by
  unfold readMapping
  split
  · exact hread _
  · exact Checked.ensures_wrong _ _

/-- A section ensures what its reading and its default do. -/
theorem readSection_ensures {parts : Parts} {part : Section} {default : α}
    {read : Document → Checked α} {p : α → Prop} (hdefault : p default)
    (hread : ∀ d, (read d).Ensures p) :
    (readSection parts part default read).Ensures p := by
  unfold readSection
  cases parts.find? part with
  | none => exact fun _ => hdefault
  | some d => exact (hread d).under _

/-- Settings that were read without an issue are valid. -/
theorem readSettings_ensures (parts : Parts) :
    (readSettings parts).Ensures Settings.Valid := by
  have hdetection : (readSection parts .detection {}
      (readMapping .detection readDetection)).Ensures
      DetectionSettings.Valid :=
    readSection_ensures (by decide) (readMapping_ensures readDetection_ensures)
  have hmatching : (readSection parts .matching {}
      (readMapping .matching readLookup)).Ensures
      LookupSettings.Valid :=
    readSection_ensures LookupSettings.valid_default
      (readMapping_ensures readLookup_ensures)
  have hprofiles : (readSection parts .profiles []
      (readList (readMapping .profiles readProfile))).Ensures fun ps => ∀ p
        ∈ ps, p.name ≠ "" :=
    readSection_ensures (fun _ hp => by cases hp)
      (readList_ensures (readMapping_ensures readProfile_ensures))
  intro hissues
  simp only [readSettings, issues_bind, List.append_eq_nil_iff] at hissues
  obtain ⟨hfirst, hsecond, hthird, -⟩ := hissues
  exact ⟨hdetection hfirst, hmatching hsecond, hprofiles hthird⟩

end Settings

end GitPersona
