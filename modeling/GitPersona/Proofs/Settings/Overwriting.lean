/-
What writing the template does to the files. It is refused where the
path leads to something that is not to be replaced; otherwise missing
directories are made, and the template is put where the path lands
(`Ends`). Whether anything is there is asked before the directories are
made. A path that enters a missing directory and leaves it again leads
nowhere then, and lands on what may well be there: such a detour is the
one way for a file to be overwritten that was not to be replaced.
-/
import GitPersona.Proofs.FileTree
import GitPersona.Settings.Template

namespace GitPersona

namespace FileTree

/-- A path goes up on the way, and to its parent there is no way yet. -/
def Detour (t : FileTree) (cwd p : Path) : Prop :=
  t.exists? cwd p.parent = false ∧ ".." ∈ p.parts

/-- The parent of a path without a NUL has none. -/
theorem holdsNull_parent {p : Path} (h : p.holdsNull = false) :
    p.parent.holdsNull = false := by
  unfold Path.holdsNull at h ⊢
  rw [List.any_eq_false] at h ⊢
  exact fun part hpart => h part ((List.dropLast_sublist _).subset hpart)

/-- What a path lands on is what it leads to, unless it takes a detour. -/
theorem WellFormed.exists?_or_detour {t : FileTree} {cwd p : Path}
    {before : List String} {last : String} (ht : t.WellFormed)
    (hnull : p.holdsNull = false) (hparts : p.parts = before ++ [last])
    (hlast : last ≠ "..") (hentry : (t.entry? (landing cwd p)).isSome) :
    t.exists? cwd p = true ∨ t.Detour cwd p := by
  have hparent : p.parent.parts = before := by
    show p.parts.dropLast = before
    rw [hparts, List.dropLast_concat]
  have hstart : start cwd p.parent = start cwd p := rfl
  rw [landing, hparts, follow_concat, hop_of_ne hlast] at hentry
  by_cases hexists : t.exists? cwd p.parent = true
  · obtain ⟨r, hwalk⟩ := exists?_eq_true_iff.1 hexists
    rw [locate_of_not_holdsNull (holdsNull_parent hnull), hparent, hstart]
      at hwalk
    rw [follow_of_walk hwalk] at hentry
    obtain ⟨e, he⟩ := Option.isSome_iff_exists.1 hentry
    refine Or.inl (exists?_eq_true_iff.2 ⟨r ++ [last], ?_⟩)
    rw [locate_of_not_holdsNull hnull, hparts]
    exact walk_concat hwalk (ht _ _ _ he) hlast hentry
  · by_cases hup : ".." ∈ p.parts
    · exact Or.inr ⟨Bool.eq_false_iff.2 hexists, hup⟩
    · have hbefore : ".." ∉ before :=
        fun h => hup (hparts ▸ List.mem_append_left _ h)
      rw [follow_eq_append hbefore, List.append_assoc, ← hparts] at hentry
      refine Or.inl (exists?_eq_true_iff.2 ⟨start cwd p ++ p.parts, ?_⟩)
      rw [locate_of_not_holdsNull hnull]
      exact ht.walk_append hup hentry

end FileTree

namespace Settings

open FileTree

variable {w : Workspace} {output written : Path} {replace : Bool} {x : Writing}
  {place : List String} {e : Entry} {f : Fault} {report : Report}

-- =========================================================== how it can end

/-- How writing the template ends. -/
inductive Ends (w : Workspace) (output : Path) (replace : Bool) :
    Writing → Prop
  | refused (hthere : w.files.exists? w.place.cwd output = true)
      (hkeep : replace = false) :
      Ends w output replace ⟨.error (.alreadyExists output), w.files⟩
  | failed {t : FileTree} {m : Mishap}
      (hgo : w.files.exists? w.place.cwd output = false ∨ replace = true)
      (hgrown : w.files.Grown t) :
      Ends w output replace ⟨.error (.mishap m), t⟩
  | written {t t' : FileTree}
      (hgo : w.files.exists? w.place.cwd output = false ∨ replace = true)
      (hgrown : w.files.Grown t)
      (hwrite : t.write w.place.cwd output template = .ok t') :
      Ends w output replace ⟨.ok output, t'⟩

/-- Writing the template ends in one of these ways. -/
theorem ends_writeTemplate (w : Workspace) (output : Path) (replace : Bool) :
    Ends w output replace (writeTemplate w output replace) := by
  have hgrown := grown_makeDirectories w.files w.place.cwd output.parent
  unfold writeTemplate
  dsimp only
  split
  · next hrefused =>
    rw [Bool.and_eq_true, Bool.not_eq_true'] at hrefused
    exact .refused hrefused.1 hrefused.2
  · next hgo =>
    rw [Bool.and_eq_true, Bool.not_eq_true', not_and_or, Bool.not_eq_true,
      Bool.not_eq_false] at hgo
    split
    · exact .failed hgo hgrown
    · split
      · exact .failed hgo hgrown
      · next hwrite => exact .written hgo hgrown hwrite

-- ====================================================== what it leaves behind

/-- Writing is refused when something is there that is to be kept. -/
theorem Ends.refused_iff (h : Ends w output replace x) :
    x.result = .error (.alreadyExists output)
    ↔ w.files.exists? w.place.cwd output = true ∧ replace = false := by
  cases h with
  | refused hthere hkeep => exact iff_of_true rfl ⟨hthere, hkeep⟩
  | failed hgo _ =>
      refine iff_of_false (by simp) (fun hrefused => ?_)
      simp [hrefused.1, hrefused.2] at hgo
  | written hgo _ _ =>
      refine iff_of_false (by simp) (fun hrefused => ?_)
      simp [hrefused.1, hrefused.2] at hgo

/-- The only report is that something is there, and the files stay
as they were. -/
theorem Ends.of_report (h : Ends w output replace x) (hf : x.result = .error f)
    (hreport : f.report? = some report) :
    f = .alreadyExists output ∧ x.files = w.files := by
  cases h with
  | refused _ _ =>
      cases hf
      exact ⟨rfl, rfl⟩
  | failed _ _ =>
      cases hf
      cases hreport
  | written _ _ _ => cases hf

/-- What was there stays, apart from a file that the path lands on. -/
theorem Ends.kept (h : Ends w output replace x) (hfiles : w.files.WellFormed)
    (he : w.files.entry? place = some e) :
    x.files.entry? place = some e
      ∨ x.result = .ok output ∧ place = landing w.place.cwd output
        ∧ (∃ text, e = .file text)
        ∧ (replace = true ∨ w.files.Detour w.place.cwd output) := by
  cases h with
  | refused _ _ => exact Or.inl he
  | failed _ hgrown => exact Or.inl (hgrown.kept he)
  | written hgo hgrown hwrite =>
      obtain ⟨hnull, before, last, parent, hparts, hlast, hwalk, -, hover,
        rfl⟩ := write_eq_ok_iff.1 hwrite
      have hland := landing_eq_concat hparts hlast hwalk
      have hkept := hgrown.kept he
      rw [← hland] at hover ⊢
      by_cases hplace : place = landing w.place.cwd output
      · refine Or.inr ⟨rfl, hplace, ?_, ?_⟩
        · cases e with
          | file text => exact ⟨text, rfl⟩
          | directory => exact absurd (hplace ▸ hkept) hover
        · cases hgo with
          | inr hreplace => exact Or.inl hreplace
          | inl hfree =>
              rw [hplace] at he
              have hreach := hfiles.exists?_or_detour hnull hparts hlast
                (by rw [he]; rfl)
              exact Or.inr (hreach.resolve_left (by rw [hfree]; decide))
      · rw [entry?_put_of_ne hplace]
        exact Or.inl hkept

/-- What is new is directories and the template. -/
theorem Ends.added (h : Ends w output replace x)
    (he : x.files.entry? place = some e) :
    w.files.entry? place = some e ∨ e = .directory
      ∨ x.result = .ok output ∧ place = landing w.place.cwd output
        ∧ e = .file template := by
  cases h with
  | refused _ _ => exact Or.inl he
  | failed _ hgrown => exact (hgrown.added he).imp_right Or.inl
  | written _ hgrown hwrite =>
      obtain ⟨-, before, last, parent, hparts, hlast, hwalk, -, -, rfl⟩ :=
        write_eq_ok_iff.1 hwrite
      have hland := landing_eq_concat hparts hlast hwalk
      by_cases hplace : place = parent ++ [last]
      · rw [hplace, entry?_put_self (by simp)] at he
        exact Or.inr
          (Or.inr ⟨rfl, hplace.trans hland.symm, (Option.some.inj he).symm⟩)
      · rw [entry?_put_of_ne hplace] at he
        exact (hgrown.added he).imp_right Or.inl

/-- A template that was written is where the path lands, and is read by it. -/
theorem Ends.of_ok (h : Ends w output replace x)
    (hx : x.result = .ok written) :
    written = output ∧ x.files.entry? (landing w.place.cwd output)
      = some (.file template)
      ∧ x.files.read? w.place.cwd output = .ok (some template) := by
  cases h with
  | refused _ _ => cases hx
  | failed _ _ => cases hx
  | written _ _ hwrite =>
      cases hx
      refine ⟨rfl, ?_, read?_of_write hwrite⟩
      obtain ⟨-, before, last, parent, hparts, hlast, hwalk, -, -, rfl⟩ :=
        write_eq_ok_iff.1 hwrite
      rw [landing_eq_concat hparts hlast hwalk]
      exact entry?_put_self (by simp)

/-- However writing ends, the tree stays well-formed. -/
theorem Ends.wellFormed (h : Ends w output replace x)
    (hfiles : w.files.WellFormed) :
    x.files.WellFormed := by
  cases h with
  | refused _ _ => exact hfiles
  | failed _ hgrown => exact hgrown.wellFormed hfiles
  | written _ hgrown hwrite =>
      obtain ⟨-, before, last, parent, -, -, -, hparent, hover, rfl⟩ :=
        write_eq_ok_iff.1 hwrite
      exact (hgrown.wellFormed hfiles).put hparent (Or.inr hover)

-- =============================================================== main result

/-- Writing the template is refused exactly if the path leads somewhere and
nothing is to be replaced, and a fault that the user is told of is that refusal
and leaves the files alone. However writing ends, all that was there stays,
apart from a file that the path lands on, which comes to hold the template;
where nothing is to be replaced, that takes a detour. All that is new is
directories and the template, which is then read by the path. -/
theorem writeTemplate_frame (w : Workspace) (output : Path) (replace : Bool)
    (hfiles : w.files.WellFormed) :
    ((writeTemplate w output replace).result = .error (.alreadyExists output)
        ↔ w.files.exists? w.place.cwd output = true ∧ replace = false)
      ∧ (∀ f report, (writeTemplate w output replace).result = .error f →
        f.report? = some report →
          f = .alreadyExists output ∧ (writeTemplate w output replace).files
            = w.files)
      ∧ (∀ place e, w.files.entry? place = some e →
          (writeTemplate w output replace).files.entry? place = some e
            ∨ (writeTemplate w output replace).result = .ok output
              ∧ place = landing w.place.cwd output ∧ (∃ text, e = .file text)
              ∧ (replace = true ∨ w.files.Detour w.place.cwd output))
      ∧ (∀ place e, (writeTemplate w output replace).files.entry? place
        = some e →
          w.files.entry? place = some e ∨ e = .directory
            ∨ (writeTemplate w output replace).result = .ok output
              ∧ place = landing w.place.cwd output ∧ e = .file template)
      ∧ (∀ written, (writeTemplate w output replace).result = .ok written →
          written = output
            ∧ (writeTemplate w output replace).files.entry?
              (landing w.place.cwd output)
              = some (.file template)
            ∧ (writeTemplate w output replace).files.read? w.place.cwd output
              = .ok (some template))
      ∧ (writeTemplate w output replace).files.WellFormed := by
  have hends := ends_writeTemplate w output replace
  refine ⟨hends.refused_iff, ?_, ?_, ?_, ?_, hends.wellFormed hfiles⟩
  · intro f report hf hreport
    exact hends.of_report hf hreport
  · intro place e he
    exact hends.kept hfiles he
  · intro place e he
    exact hends.added he
  · intro written hx
    exact hends.of_ok hx

/-- A workspace with nothing but a settings file, at the root. -/
def besideSettings : Workspace where
  place := { homes := { own := some "/home/ada" }, cwd := .root }
  files := FileTree.put {} ["gitsetup.yml"] (.file "profiles: []\n")
  environment := []

/-- The workspace with a settings file is well-formed. -/
theorem wellFormed_besideSettings : besideSettings.files.WellFormed := by
  have hput : (FileTree.put {} ([] ++ ["gitsetup.yml"])
      (.file "profiles: []\n")).WellFormed :=
    wellFormed_empty.put (entry?_nil {}) (Or.inr (by decide))
  exact hput

/-- Writing to a missing directory leaves that file alone. -/
theorem writeTemplate_missingDirectory :
    (writeTemplate besideSettings (Path.parse "a/gitsetup.yml")
      false).files.entry? ["gitsetup.yml"]
      = some (.file "profiles: []\n") := by
  obtain ⟨-, -, hkept, -⟩ :=
    writeTemplate_frame besideSettings (Path.parse "a/gitsetup.yml") false
    wellFormed_besideSettings
  have hland : landing besideSettings.place.cwd (Path.parse "a/gitsetup.yml")
      = ["a", "gitsetup.yml"] := by
    decide +kernel
  cases hkept ["gitsetup.yml"] (.file "profiles: []\n") rfl with
  | inl h => exact h
  | inr h => exact absurd (h.2.1.trans hland) (by decide)

/-- The template starts with a comment. -/
theorem head?_template : template.toList.head? = some '#' := by
  have hhead : (String.join (templateHead.map (· ++ "\n"))).toList.head?
      = some '#' := by
    decide +kernel
  rw [template, String.toList_append, List.head?_append, hhead]
  rfl

/-- Writing to the file itself by a detour through that directory overwrites
it, although nothing is to be replaced. -/
theorem writeTemplate_detour :
    besideSettings.files.entry? ["gitsetup.yml"]
      = some (.file "profiles: []\n")
      ∧ (writeTemplate besideSettings (Path.parse "a/../gitsetup.yml")
        false).files.entry?
        ["gitsetup.yml"] ≠ some (.file "profiles: []\n") := by
  have hends := ends_writeTemplate besideSettings
    (Path.parse "a/../gitsetup.yml") false
  have hok : (writeTemplate besideSettings (Path.parse "a/../gitsetup.yml")
      false).result.isOk := by
    decide +kernel
  have hland : landing besideSettings.place.cwd
      (Path.parse "a/../gitsetup.yml")
      = ["gitsetup.yml"] := by
    decide +kernel
  refine ⟨rfl, ?_⟩
  cases hresult : (writeTemplate besideSettings
    (Path.parse "a/../gitsetup.yml") false).result with
  | error f =>
      rw [hresult] at hok
      cases hok
  | ok written =>
      obtain ⟨-, hentry, -⟩ := hends.of_ok hresult
      rw [hland] at hentry
      rw [hentry]
      intro hsame
      have htext : template = "profiles: []\n" :=
        Entry.file.inj (Option.some.inj hsame)
      have hhead := head?_template
      rw [htext] at hhead
      revert hhead
      decide +kernel

end Settings

end GitPersona
