/-
The host rule does not see the letter case of ASCII. Host names that
differ in nothing else are found by the same pattern of a profile, with
the same confidence, or by none; a name that a pattern spells out goes
before every glob, wherever the two stand (`hostname_caseless`).

# Two ways to ignore case

A pattern without wildcards is compared with the whole name under full
folding, which may make several characters of one. A glob goes character
by character, and what an element takes is decided by the lower case of
the character: a span takes a character if it holds any of its variants,
a negated class if it holds none. Neither can tell apart two characters
with one ASCII lower case: either they are the same, or both are ASCII,
where folding and lower case are that one mapping
(`Text.eq_or_ascii_of_toLower_eq`).
-/
import GitPersona.Proofs.Detection.Namespace
import GitPersona.Proofs.Text.Case

namespace GitPersona

-- ================================================== statement vocabulary

/-- Two texts that differ at most in the case of ASCII letters, the only ones
that `Char.toLower` changes. -/
def Text.AsciiAlike (cs ds : List Char) : Prop :=
  cs.map Char.toLower = ds.map Char.toLower

namespace Detection

/-- A pattern without wildcards is the host name, under full case folding. -/
def NamesHost (pattern host : String) : Prop :=
  Glob.WildcardFree pattern.toList
    ∧ Text.fold pattern.toList = Text.fold host.toList

/-- A pattern with wildcards takes the host name: read as elements, it cuts the
name into pieces that they take, letter case ignored. -/
def CoversHost (pattern host : String) : Prop :=
  ¬Glob.WildcardFree pattern.toList
    ∧ ∃ es, Glob.Reads pattern.toList es ∧ Glob.Cut .insensitive es host.toList

/-- The first of the patterns with a property. -/
structure FirstWith (P : String → Prop) (patterns : List String)
    (pattern : String) : Prop where
  holds : P pattern
  first : ∃ earlier later, patterns = earlier ++ pattern :: later
    ∧ ∀ q ∈ earlier, ¬P q

/-- What is said about a pattern that is the host name. -/
def namedFinding (host pattern : String) : Finding :=
  { confidence := 0.9, evidence := "hostname '" ++ host ++ "' is '" ++ pattern
    ++ "'" }

/-- What is said about a pattern that takes the host name. -/
def coveredFinding (host pattern : String) : Finding :=
  { confidence := 0.7, evidence := "hostname '" ++ host ++ "' matches '"
    ++ pattern ++ "'" }

end Detection

-- ====================================================== letters of ASCII

namespace Text

/-- Texts with one ASCII lower case have one folding. -/
theorem AsciiAlike.fold_eq {cs ds : List Char} (h : AsciiAlike cs ds) :
    fold cs = fold ds := by
  unfold AsciiAlike at h
  induction cs generalizing ds with
  | nil => rw [List.map_eq_nil_iff.1 h.symm]
  | cons c cs ih =>
      obtain ⟨d, ds, rfl, hd, hds⟩ := List.map_eq_cons_iff.1 h.symm
      have hrest := ih hds.symm
      rw [fold, fold] at hrest
      rw [fold, fold, List.flatMap_cons, List.flatMap_cons, hrest,
        foldChar_eq_of_toLower_eq hd.symm]

end Text

-- ==================================================== globs without case

namespace Glob

open Text

/-- Members of a class hold characters alike that differ in case only. -/
theorem Member.holds_eq_of_lower_eq {c d : Char} (h : lower c = lower d)
    (m : Member) :
    m.holds .insensitive c = m.holds .insensitive d := by
  cases m with
  | one a => simp only [Member.holds, sameLetter, h]
  | span lo hi => simp only [Member.holds, variants, h]

/-- An element that ignores case goes by the lower case of a character. -/
theorem Element.takes_eq_of_lower_eq {c d : Char} (h : lower c = lower d)
    (e : Element) :
    e.takes .insensitive c = e.takes .insensitive d := by
  cases e with
  | star => rfl
  | anyOne => rfl
  | among k => simp only [Element.takes, CharClass.takes,
      Member.holds_eq_of_lower_eq h]
  | exactly a => simp only [Element.takes, sameLetter, h]

/-- A cut of a text, letter case ignored, is a cut of each text that differs in
case alone: the pieces are as long. -/
theorem Cut.of_asciiAlike {es : List Element} {cs ds : List Char}
    (h : Cut .insensitive es cs)
    (halike : AsciiAlike cs ds) : Cut .insensitive es ds := by
  unfold AsciiAlike at halike
  induction h generalizing ds with
  | done =>
      rw [List.map_eq_nil_iff.1 halike.symm]
      exact Cut.done
  | run piece _ ih =>
      rw [List.map_append] at halike
      obtain ⟨piece', rest, rfl, -, hrest⟩ :=
        List.map_eq_append_iff.1 halike.symm
      exact Cut.run piece' (ih hrest.symm)
  | one htakes _ ih =>
      obtain ⟨d, rest, rfl, hd, hrest⟩ := List.map_eq_cons_iff.1 halike.symm
      rw [Element.takes_eq_of_lower_eq (lower_eq_of_toLower_eq hd.symm)]
        at htakes
      exact Cut.one htakes (ih hrest.symm)

end Glob

namespace Detection

open Glob (isLiteral accepts)
open Text (AsciiAlike)

variable {host other pattern : String} {patterns : List String}

-- =========================================================== one pattern

/-- A literal pattern takes the hosts that it names. -/
theorem namesHost_iff :
    (isLiteral pattern.toList == true
      && accepts .insensitive pattern.toList host.toList) = true
      ↔ NamesHost pattern host := by
  rw [Bool.and_eq_true, beq_iff_eq, Glob.accepts_insensitive_iff, NamesHost,
    ← Glob.isLiteral_iff]
  exact and_congr_right fun hliteral => by rw [if_pos hliteral]

/-- A pattern with wildcards takes the hosts that it covers. -/
theorem coversHost_iff :
    (isLiteral pattern.toList == false
      && accepts .insensitive pattern.toList host.toList) = true
      ↔ CoversHost pattern host := by
  rw [Bool.and_eq_true, beq_iff_eq, Glob.accepts_insensitive_iff, CoversHost,
    ← Glob.isLiteral_iff, Bool.not_eq_true]
  exact and_congr_right fun hwild => by
    rw [if_neg (Bool.not_eq_true _ ▸ hwild)]

/-- Whether a pattern takes a host name, letter case ignored, cannot depend on
that of ASCII. -/
theorem accepts_eq_of_asciiAlike (h : AsciiAlike host.toList other.toList)
    (pattern : List Char) :
    accepts .insensitive pattern host.toList
      = accepts .insensitive pattern other.toList := by
  rw [Bool.eq_iff_iff, Glob.accepts_insensitive_iff,
    Glob.accepts_insensitive_iff, h.fold_eq]
  split
  · rfl
  · refine exists_congr fun es => and_congr_right fun _ => ?_
    exact ⟨fun hcut => hcut.of_asciiAlike h,
      fun hcut => hcut.of_asciiAlike h.symm⟩

-- ============================================================= the search

/-- The first pattern of its kind is one of the patterns. -/
theorem FirstWith.mem {P : String → Prop} (h : FirstWith P patterns pattern) :
    pattern ∈ patterns := by
  obtain ⟨earlier, later, rfl, -⟩ := h.first
  exact List.mem_append_right _ List.mem_cons_self

/-- The first pattern that takes a host name, among those without or those
with wildcards. -/
def fitting? (literal : Bool) (host : String) (patterns : List String) :
    Option String :=
  patterns.find? fun pattern =>
    isLiteral pattern.toList == literal
      && accepts .insensitive pattern.toList host.toList

/-- Hosts that differ in the case of ASCII letters only are taken by the
same patterns. -/
theorem fitting?_eq_of_asciiAlike (h : AsciiAlike host.toList other.toList)
    (literal : Bool) :
    fitting? literal host patterns = fitting? literal other patterns := by
  unfold fitting?
  simp only [accepts_eq_of_asciiAlike h]

/-- What a search finds, its test standing for a property of patterns. -/
theorem firstWith_of_find? {P : String → Prop} {test : String → Bool}
    (htest : ∀ q, test q = true ↔ P q)
    (h : patterns.find? test = some pattern) :
    FirstWith P patterns pattern := by
  obtain ⟨hfits, earlier, later, hsplit, hearlier⟩ :=
    List.find?_eq_some_iff_append.1 h
  refine ⟨(htest _).1 hfits, earlier, later, hsplit, fun q hq hP => ?_⟩
  have hpassed := hearlier q hq
  rw [(htest q).2 hP] at hpassed
  cases hpassed

/-- Where a search finds nothing, nothing has the property. -/
theorem forall_not_of_find? {P : String → Prop} {test : String → Bool}
    (htest : ∀ q, test q = true ↔ P q) (h : patterns.find? test = none) :
    ∀ q ∈ patterns, ¬P q :=
  fun q hq hP => List.find?_eq_none.1 h q hq ((htest q).2 hP)

-- =============================================================== the rule

/-- The rule on hosts looks for a name first, and then for wildcards. -/
theorem hostname_eq (c : Context) (p : Profile) :
    hostname c p
      = ((fitting? true c.hostname p.hostPatterns).map
        (namedFinding c.hostname)).or
          ((fitting? false c.hostname p.hostPatterns).map
            (coveredFinding c.hostname)) := by
  unfold hostname fitting?
  dsimp only
  split
  · next hnamed => rw [hnamed]; rfl
  · next hnamed hcovered => rw [hnamed, hcovered]; rfl
  · next hnamed hcovered => rw [hnamed, hcovered]; rfl

/-- The rule goes by the first pattern that is the host name, else by the first
that takes it, else by none. -/
theorem hostname_cases (c : Context) (p : Profile) :
    (∃ pattern, FirstWith (NamesHost · c.hostname) p.hostPatterns pattern
        ∧ hostname c p = some (namedFinding c.hostname pattern))
      ∨ (∀ q ∈ p.hostPatterns, ¬NamesHost q c.hostname)
        ∧ ((∃ pattern, FirstWith (CoversHost · c.hostname) p.hostPatterns
          pattern
              ∧ hostname c p = some (coveredFinding c.hostname pattern))
            ∨ (∀ q ∈ p.hostPatterns, ¬CoversHost q c.hostname) ∧ hostname c p
              = none) := by
  rw [hostname_eq]
  cases hnamed : fitting? true c.hostname p.hostPatterns with
  | some pattern => exact Or.inl ⟨pattern,
      firstWith_of_find? (fun _ => namesHost_iff) hnamed, rfl⟩
  | none =>
      refine Or.inr ⟨forall_not_of_find? (fun _ => namesHost_iff) hnamed, ?_⟩
      cases hcovered : fitting? false c.hostname p.hostPatterns with
      | some pattern =>
          exact Or.inl ⟨pattern,
            firstWith_of_find? (fun _ => coversHost_iff) hcovered, rfl⟩
      | none => exact Or.inr ⟨forall_not_of_find? (fun _ => coversHost_iff)
          hcovered, rfl⟩

/-- One pattern decides for host names that differ in the case of
ASCII letters. -/
theorem hostname_of_asciiAlike {c d : Context} (p : Profile)
    (h : AsciiAlike c.hostname.toList d.hostname.toList) :
    (hostname c p = none ∧ hostname d p = none)
      ∨ ∃ pattern ∈ p.hostPatterns,
          (hostname c p = some (namedFinding c.hostname pattern)
              ∧ hostname d p = some (namedFinding d.hostname pattern))
            ∨ hostname c p = some (coveredFinding c.hostname pattern)
              ∧ hostname d p = some (coveredFinding d.hostname pattern) := by
  rw [hostname_eq, hostname_eq, ← fitting?_eq_of_asciiAlike h,
    ← fitting?_eq_of_asciiAlike h]
  cases hnamed : fitting? true c.hostname p.hostPatterns with
  | some pattern =>
      exact Or.inr ⟨pattern, List.mem_of_find?_eq_some hnamed,
        Or.inl ⟨rfl, rfl⟩⟩
  | none =>
      cases hcovered : fitting? false c.hostname p.hostPatterns with
      | some pattern =>
          exact Or.inr ⟨pattern, List.mem_of_find?_eq_some hcovered,
            Or.inr ⟨rfl, rfl⟩⟩
      | none => exact Or.inl ⟨rfl, rfl⟩

-- The values of the two findings, which tell them apart.
private theorem confidences_apart :
    (0.9 : Float) ≠ 0.7 ∧ (0.7 : Float) ≠ 0.9 := by
  decide

/-- The rule fires with `0.9` when a pattern names the host. -/
theorem confidence_hostname_eq_named_iff {c : Context} {p : Profile} :
    (hostname c p).map (·.confidence) = some 0.9
      ↔ ∃ pattern ∈ p.hostPatterns, NamesHost pattern c.hostname := by
  rcases hostname_cases c p with ⟨pattern, hfirst, hfinding⟩
    | ⟨hunnamed, ⟨pattern, -, hfinding⟩ | ⟨-, hsilent⟩⟩
  · rw [hfinding]
    exact iff_of_true rfl ⟨pattern, hfirst.mem, hfirst.holds⟩
  · rw [hfinding]
    refine iff_of_false (fun hconfidence => ?_) fun ⟨q, hq, hnames⟩ =>
      hunnamed q hq hnames
    exact confidences_apart.2 (Option.some.inj hconfidence)
  · rw [hsilent]
    refine iff_of_false (fun hconfidence => ?_) fun ⟨q, hq, hnames⟩ =>
      hunnamed q hq hnames
    cases hconfidence

/-- The rule fires with `0.7` when no pattern names the host and
one covers it. -/
theorem confidence_hostname_eq_covered_iff {c : Context} {p : Profile} :
    (hostname c p).map (·.confidence) = some 0.7
      ↔ (∀ q ∈ p.hostPatterns, ¬NamesHost q c.hostname)
        ∧ ∃ pattern ∈ p.hostPatterns, CoversHost pattern c.hostname := by
  rcases hostname_cases c p with ⟨pattern, hfirst, hfinding⟩
    | ⟨hunnamed, ⟨pattern, hfirst, hfinding⟩ | ⟨huncovered, hsilent⟩⟩
  · rw [hfinding]
    refine iff_of_false (fun hconfidence => ?_) fun ⟨hunnamed, _⟩ =>
      hunnamed pattern hfirst.mem hfirst.holds
    exact confidences_apart.1 (Option.some.inj hconfidence)
  · rw [hfinding]
    exact iff_of_true rfl ⟨hunnamed, pattern, hfirst.mem, hfirst.holds⟩
  · rw [hsilent]
    refine iff_of_false (fun hconfidence => ?_) fun ⟨_, q, hq, hcovers⟩ =>
      huncovered q hq hcovers
    cases hconfidence

/-- The rule is silent when no pattern names or covers the host. -/
theorem hostname_eq_none_iff {c : Context} {p : Profile} :
    hostname c p = none
      ↔ ∀ q ∈ p.hostPatterns, ¬NamesHost q c.hostname
        ∧ ¬CoversHost q c.hostname := by
  rcases hostname_cases c p with ⟨pattern, hfirst, hfinding⟩
    | ⟨hunnamed, ⟨pattern, hfirst, hfinding⟩ | ⟨huncovered, hsilent⟩⟩
  · rw [hfinding]
    exact iff_of_false (Option.some_ne_none _) fun hall =>
      (hall _ hfirst.mem).1 hfirst.holds
  · rw [hfinding]
    exact iff_of_false (Option.some_ne_none _) fun hall =>
      (hall _ hfirst.mem).2 hfirst.holds
  · exact iff_of_true hsilent fun q hq => ⟨hunnamed q hq, huncovered q hq⟩

-- ============================================================== main result

/-- Host names that differ in the case of ASCII letters are found by one
pattern, with one confidence, or by none. The rule is as sure as of a name
exactly when some pattern is the host name under case folding, wherever it
stands; it is as sure as of a glob, and names the first that takes the host
name, exactly when no pattern is the host name and some glob takes it;
otherwise it is silent. -/
theorem hostname_caseless (p : Profile) :
    (∀ c d : Context, AsciiAlike c.hostname.toList d.hostname.toList →
        (hostname c p = none ∧ hostname d p = none)
          ∨ ∃ pattern ∈ p.hostPatterns,
              (hostname c p = some (namedFinding c.hostname pattern)
                  ∧ hostname d p = some (namedFinding d.hostname pattern))
                ∨ hostname c p = some (coveredFinding c.hostname pattern)
                  ∧ hostname d p = some (coveredFinding d.hostname pattern))
      ∧ ∀ c : Context,
          ((hostname c p).map (·.confidence) = some 0.9
              ↔ ∃ pattern ∈ p.hostPatterns, NamesHost pattern c.hostname)
            ∧ ((hostname c p).map (·.confidence) = some 0.7
              ↔ (∀ q ∈ p.hostPatterns, ¬NamesHost q c.hostname)
                ∧ ∃ pattern ∈ p.hostPatterns, CoversHost pattern c.hostname)
            ∧ (hostname c p = none
              ↔ ∀ q ∈ p.hostPatterns, ¬NamesHost q c.hostname
                ∧ ¬CoversHost q c.hostname)
            ∧ ∀ f, hostname c p = some f →
                (∃ pattern, FirstWith (NamesHost · c.hostname) p.hostPatterns
                  pattern
                    ∧ f = namedFinding c.hostname pattern)
                  ∨ (∀ q ∈ p.hostPatterns, ¬NamesHost q c.hostname)
                    ∧ ∃ pattern, FirstWith (CoversHost · c.hostname)
                      p.hostPatterns pattern
                      ∧ f = coveredFinding c.hostname pattern := by
  refine ⟨fun c d => hostname_of_asciiAlike p,
    fun c => ⟨confidence_hostname_eq_named_iff,
    confidence_hostname_eq_covered_iff, hostname_eq_none_iff, fun f hf => ?_⟩⟩
  rcases hostname_cases c p with ⟨pattern, hfirst, hfinding⟩
    | ⟨hunnamed, ⟨pattern, hfirst, hfinding⟩ | ⟨-, hsilent⟩⟩
  · exact Or.inl ⟨pattern, hfirst, Option.some.inj (hf.symm.trans hfinding)⟩
  · exact Or.inr ⟨hunnamed, pattern, hfirst,
      Option.some.inj (hf.symm.trans hfinding)⟩
  · rw [hsilent] at hf
    cases hf

/-- A profile for the hosts that a glob takes, and after it for one of
them by name. -/
def devHosts : Profile :=
  { name := "work", email := "a@work.example",
    hostPatterns := ["[a-f]ev-*", "DEV-box"] }

/-- The host by name, in a letter case that no pattern has. -/
def devBox : Context :=
  { workingDir := .root, hostname := "Dev-Box" }

/-- The same host in capitals. -/
def devBoxShouted : Context :=
  { workingDir := .root, hostname := "DEV-BOX" }

/-- The name counts, although the glob comes first, and counts for both
spellings of the host. -/
theorem hostname_devHosts :
    AsciiAlike devBox.hostname.toList devBoxShouted.hostname.toList
      ∧ NamesHost "DEV-box" devBox.hostname
      ∧ (hostname devBox devHosts).map (·.confidence) = some 0.9
      ∧ (hostname devBoxShouted devHosts).map (·.confidence) = some 0.9 := by
  have halike : AsciiAlike devBox.hostname.toList
      devBoxShouted.hostname.toList := by
    unfold AsciiAlike
    decide
  have hnames : NamesHost "DEV-box" devBox.hostname :=
    ⟨Glob.isLiteral_iff.1 (by decide), by decide⟩
  obtain ⟨hpairs, hrule⟩ := hostname_caseless devHosts
  have hconfidence := (hrule devBox).1.2 ⟨"DEV-box", by decide, hnames⟩
  refine ⟨halike, hnames, hconfidence, ?_⟩
  rcases hpairs devBox devBoxShouted halike with ⟨hsilent, -⟩
    | ⟨pattern, -, ⟨-, hnamed⟩ | ⟨hcovered, -⟩⟩
  · rw [hsilent] at hconfidence
    cases hconfidence
  · rw [hnamed]
    rfl
  · rw [hcovered] at hconfidence
    exact absurd (Option.some.inj hconfidence) confidences_apart.2

end Detection

end GitPersona
