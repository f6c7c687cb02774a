import Mathlib.Data.List.Forall2
import NlsBundle.Proofs.Path.Normal
import NlsBundle.Proofs.Session.Additions
import NlsBundle.Proofs.Settings.Written
import NlsBundle.Setup

/-!
# Setting up modules

The setup of a module adds at most one file, the settings of that module. Proved here:

* `outcome_readEntries_cases`: entries are read from the files that the search has listed, and
  nothing changes;
* `outcome_writeSettings_cases`: the settings are written to a path where nothing was, or no file is
  written;
* `EntryOf.of_adds`: a class that can be read during the run was there before it, since settings are
  no classes;
* `SetsUp.append`: what the setup of some modules and then of others comes to;
* `setsUp_setUpModule`, `setsUp_modules`: one module, and by induction any number of them, whether
  or not they fail.
-/

namespace NlsBundle

open NlsBundle.Action

/-! ## The search -/

namespace Search

/-- The search for classes that have a resolver fails, or it gives what the program has printed. -/
theorem outcome_resolverClasses_cases (modulePath : Text) (s : Session) :
    (∃ e s', outcome (resolverClasses modulePath) s = (.error e, s') ∧ Adds [] [] s s') ∨
      ∃ words, ShellWords.split (resolverClassesLine modulePath) = .ok words ∧
        outcome (resolverClasses modulePath) s =
          (.ok (s.answers.head?.toList.flatMap Answer.printed), called s (.words words)) := by
  have hline : resolverClassesLine modulePath = "ag".toList ++ ' ' ::
      ("'static.*final.*IMessageResolver.*MSG.*=' -G '.*java$' ".toList ++ modulePath ++
        " -l".toList) := rfl
  have hplain : "ag".toList.all ShellWords.isPlain = true := by decide
  rw [resolverClasses, hline]
  rcases outcome_run_cases (List.cons_ne_nil _ _) hplain _ s with
    ⟨e, h⟩ | ⟨words, hwords, ⟨e, h⟩ | ⟨_, h⟩⟩
  · exact Or.inl ⟨e, s, h, Adds.refl s⟩
  · exact Or.inl ⟨e, _, h, adds_called s _⟩
  · exact Or.inr ⟨words, hwords, h⟩

end Search

namespace Setup

variable {s t u : Session}

/-! ## Entries -/

/-- The path leads to a class with this entry. -/
def EntryOf (s : Session) (path : Text) (entry : BundleEntry) : Prop :=
  ∃ content, s.Holds path content ∧ BundleEntry.ofClass content = .ok entry

theorem outcome_readEntry_cases (path : Text) (s : Session) :
    (∃ e, outcome (readEntry path) s = (.error e, s)) ∨
      ∃ entry, EntryOf s path entry ∧ outcome (readEntry path) s = (.ok entry, s) := by
  unfold readEntry
  rcases outcome_readText_cases path s with ⟨content, hholds, hread⟩ | ⟨_, e, hread⟩
  · rw [outcome_bind_of_ok hread]
    cases hentry : BundleEntry.ofClass content with
    | error missing => exact Or.inl ⟨_, rfl⟩
    | ok entry => exact Or.inr ⟨entry, ⟨content, hholds, hentry⟩, rfl⟩
  · rw [outcome_bind_of_error hread]
    exact Or.inl ⟨e, rfl⟩

theorem outcome_readEntries_cases (paths : List Text) (s : Session) :
    (∃ e, outcome (paths.mapM readEntry) s = (.error e, s)) ∨
      ∃ entries, List.Forall₂ (EntryOf s) paths entries ∧
        outcome (paths.mapM readEntry) s = (.ok entries, s) := by
  induction paths with
  | nil => exact Or.inr ⟨[], .nil, rfl⟩
  | cons path paths ih =>
    rw [List.mapM_cons]
    rcases outcome_readEntry_cases path s with ⟨e, hread⟩ | ⟨entry, hentry, hread⟩
    · rw [outcome_bind_of_error hread]
      exact Or.inl ⟨e, rfl⟩
    · rw [outcome_bind_of_ok hread]
      rcases ih with ⟨e, hrest⟩ | ⟨entries, hentries, hrest⟩
      · rw [outcome_bind_of_error hrest]
        exact Or.inl ⟨e, rfl⟩
      · rw [outcome_bind_of_ok hrest]
        exact Or.inr ⟨entry :: entries, .cons hentry hentries, rfl⟩

theorem unbroken_of_entryOf {paths : List Text} {entries : List BundleEntry}
    (h : List.Forall₂ (EntryOf s) paths entries) : ∀ e ∈ entries, e.IsUnbroken := by
  induction h with
  | nil => simp
  | cons hentry _ ih =>
    obtain ⟨content, _, hclass⟩ := hentry
    exact List.forall_mem_cons.mpr ⟨BundleEntry.unbroken_of_ofClass hclass, ih⟩

theorem EntryOf.of_adds {writes : List Write} {printed path : Text} {entry : BundleEntry}
    (h : EntryOf t path entry) (hadds : Adds writes printed s t)
    (hwrites : ∀ w ∈ writes, ∀ e, BundleEntry.ofClass w.content ≠ .ok e) :
    EntryOf s path entry := by
  obtain ⟨content, ⟨hpath, hfile⟩, hentry⟩ := h
  rw [hadds.locate_eq] at hfile
  refine ⟨content, ⟨hpath, ?_⟩, hentry⟩
  by_cases hmem : s.locate path ∈ writes.map Write.place
  · obtain ⟨w, hw, hplace⟩ := List.mem_map.mp hmem
    have hwritten := hadds.file_eq_of_mem w hw
    rw [hplace, hfile] at hwritten
    cases hwritten
    exact absurd hentry (hwrites w hw entry)
  · rwa [hadds.file_eq_of_notMem _ hmem] at hfile

/-! ## Settings -/

/-- Where the settings of a module are. -/
def settingsPath (modulePath : Text) : Text :=
  Path.join (Path.join modulePath Settings.directoryName) Settings.fileName

theorem settingsPath_ne_nil (modulePath : Text) : settingsPath modulePath ≠ [] :=
  Path.join_ne_nil (by decide) _

/-- Settings are written where nothing was, or no file is written. -/
theorem outcome_writeSettings_cases (modulePath data : Text) (s : Session) :
    (∃ r s', outcome (writeSettings modulePath data) s = (r, s') ∧ Adds [] [] s s' ∧
      ∀ path, r ≠ .ok (some path)) ∨
      ∃ s', outcome (writeSettings modulePath data) s = (.ok (some (settingsPath modulePath)), s') ∧
        Adds [⟨settingsPath modulePath, s.locate (settingsPath modulePath), data⟩] [] s s' := by
  unfold writeSettings
  have hmade := keeps_makeDirectories (Path.join modulePath Settings.directoryName) s
  rcases hmake : outcome (makeDirectories (Path.join modulePath Settings.directoryName)) s
    with ⟨r, s₁⟩
  rw [hmake] at hmade
  cases r with
  | error e =>
    rw [outcome_bind_of_error hmake]
    exact Or.inl ⟨_, s₁, rfl, hmade, by simp⟩
  | ok isNew =>
    rw [outcome_bind_of_ok hmake, outcome_bind_of_ok (outcome_pathExists _ s₁)]
    split
    · obtain ⟨messages, hsay⟩ := outcome_say_cases .error
        ("Not writing settings file ".toList ++ settingsPath modulePath ++
          " : file already exists. What would have been written: ".toList ++ data) s₁
      rw [settingsPath] at hsay
      rw [outcome_bind_of_ok hsay]
      exact Or.inl ⟨_, _, rfl, hmade.append (adds_messages s₁ messages), by simp⟩
    · rename_i hfree
      have hnew : s₁.tree.contains (s₁.locate (settingsPath modulePath)) = false := by
        have hne := settingsPath_ne_nil modulePath
        rw [settingsPath] at hne ⊢
        simpa [hne] using hfree
      rcases outcome_writeText_cases (settingsPath modulePath) data s₁ with
        ⟨e, hwrite⟩ | ⟨tree, htree, hwrite⟩
      · refine Or.inl ⟨.error e, s₁, ?_, hmade, by simp⟩
        exact outcome_bind_of_error hwrite
      · refine Or.inr ⟨_, outcome_bind_of_ok hwrite, ?_⟩
        rw [← hmade.locate_eq]
        exact hmade.append (adds_write hnew htree)

/-- The settings of a module have been written: the module is a directory, some files were listed in
the search, and the settings are made from what these files, as they were before, have as
entries. -/
structure SettingsOf (s s' : Session) (modulePath : Text) (w : Write) : Prop where
  given_eq : w.given = settingsPath modulePath
  place_eq : w.place = s.locate (settingsPath modulePath)
  isDirectory : s'.tree.isDirectory modulePath = true
  exists_entries :
    ∃ words answer entries, ShellWords.split (Search.resolverClassesLine modulePath) = .ok words ∧
    (.words words, answer) ∈ s.calls s' ∧ entries ≠ [] ∧
      List.Forall₂ (EntryOf s) answer.printed entries ∧
    w.content = Settings.render entries

namespace SettingsOf

variable {modulePath : Text} {w : Write} {writes : List Write} {printed : Text}

/-- What has been written cannot be read as a class. -/
theorem ofClass_ne_ok (h : SettingsOf s t modulePath w) (entry : BundleEntry) :
    BundleEntry.ofClass w.content ≠ .ok entry := by
  obtain ⟨words, answer, entries, _, _, _, hentries, hcontent⟩ := h.exists_entries
  rw [hcontent]
  exact Settings.ofClass_render_ne_ok (unbroken_of_entryOf hentries) entry

theorem of_adds_right (h : SettingsOf s t modulePath w) (hst : Records s t)
    (htu : Adds writes printed t u) :
    SettingsOf s u modulePath w := by
  obtain ⟨words, answer, entries, hwords, hcall, hrest⟩ := h.exists_entries
  refine ⟨h.given_eq, h.place_eq, htu.isDirectory_of_isDirectory _ h.isDirectory,
    words, answer, entries, hwords, ?_, hrest⟩
  rw [calls_append hst htu.records]
  exact List.mem_append_left _ hcall

theorem of_adds_left (h : SettingsOf t u modulePath w) (hst : Adds writes printed s t)
    (htu : Records t u) (hwrites : ∀ w ∈ writes, ∀ e, BundleEntry.ofClass w.content ≠ .ok e) :
    SettingsOf s u modulePath w := by
  obtain ⟨words, answer, entries, hwords, hcall, hne, hentries, hcontent⟩ := h.exists_entries
  refine ⟨h.given_eq, h.place_eq.trans (hst.locate_eq _), h.isDirectory,
    words, answer, entries, hwords, ?_, hne, ?_, hcontent⟩
  · rw [calls_append hst.records htu]
    exact List.mem_append_right _ hcall
  · exact hentries.imp fun path entry hentry => hentry.of_adds hst hwrites

end SettingsOf

/-! ## Modules -/

/-- What the setup of modules, one after the other, comes to: the settings of some of them are
written, in their order, and nothing else is. -/
structure SetsUp (modules : List Text) (writes : List Write) (printed : Text)
    (s s' : Session) : Prop where
  adds : Adds writes printed s s'
  sublist : (writes.map Write.given).Sublist (modules.map settingsPath)
  settingsOf : ∀ w ∈ writes, ∃ m ∈ modules, SettingsOf s s' m w

namespace SetsUp

variable {modules modules' : List Text} {ws ws' : List Write} {out out' : Text}

theorem of_adds (h : Adds [] out s t) (modules : List Text) : SetsUp modules [] out s t :=
  ⟨h, List.nil_sublist _, fun _ hw => absurd hw List.not_mem_nil⟩

theorem append (h : SetsUp modules ws out s t) (h' : SetsUp modules' ws' out' t u) :
    SetsUp (modules ++ modules') (ws ++ ws') (out ++ out') s u := by
  refine ⟨h.adds.append h'.adds, ?_, ?_⟩
  · rw [List.map_append, List.map_append]
    exact h.sublist.append h'.sublist
  · intro w hw
    rcases List.mem_append.mp hw with hw | hw
    · obtain ⟨m, hm, hsettings⟩ := h.settingsOf w hw
      exact ⟨m, List.mem_append_left _ hm, hsettings.of_adds_right h.adds.records h'.adds⟩
    · obtain ⟨m, hm, hsettings⟩ := h'.settingsOf w hw
      refine ⟨m, List.mem_append_right _ hm, hsettings.of_adds_left h.adds h'.adds.records ?_⟩
      intro written hwritten
      obtain ⟨_, _, hsettings'⟩ := h.settingsOf written hwritten
      exact hsettings'.ofClass_ne_ok

end SetsUp

/-- The name of a settings file as seen from a directory. -/
def nameFrom (workingDirectory directory : Text) (w : Write) : Text :=
  Path.relative workingDirectory w.given directory

/-- The settings that are written after a search are those of the module. -/
theorem settingsOf_of_adds {modulePath : Text} {words : List Text} {entries : List BundleEntry}
    {w : Write} (hdirectory : s.tree.isDirectory modulePath = true)
    (hwords : ShellWords.split (Search.resolverClassesLine modulePath) = .ok words)
    (hentries : List.Forall₂ (EntryOf (called s (.words words)))
      (s.answers.head?.toList.flatMap Answer.printed) entries)
    (hne : entries ≠ [])
    (hw : w = ⟨settingsPath modulePath, s.locate (settingsPath modulePath),
      Settings.render entries⟩)
    (hadds : Adds [w] [] (called s (.words words)) t) : SettingsOf s t modulePath w := by
  subst hw
  have hcalled := adds_called s words
  refine ⟨rfl, rfl, hadds.isDirectory_of_isDirectory _ hdirectory, ?_⟩
  cases hanswer : s.answers.head? with
  | none =>
    rw [hanswer] at hentries
    exact absurd (List.forall₂_nil_left_iff.mp hentries) hne
  | some answer =>
    rw [hanswer, Option.toList_some, List.flatMap_singleton] at hentries
    refine ⟨words, answer, entries, hwords, ?_, hne, ?_, rfl⟩
    · rw [calls_append hcalled.records hadds.records]
      exact List.mem_append_left _ (mem_calls_called hanswer _)
    · exact hentries.imp fun path entry hentry => hentry.of_adds hcalled (by simp)

theorem setsUp_setUpModule (parentDirectory : Option Text) (modulePath : Text) (s : Session) :
    ∃ ws, SetsUp [modulePath] ws [] s (outcome (setUpModule parentDirectory modulePath) s).2 ∧
      ∀ created, (outcome (setUpModule parentDirectory modulePath) s).1 = .ok created →
        created.toList = ws.map (nameFrom s.workingDirectory (parentDirectory.getD ['.'])) := by
  unfold setUpModule
  rw [outcome_bind_of_ok (outcome_get s)]
  split
  · obtain ⟨messages, hsay⟩ :=
      outcome_say_cases .warning ("Not a directory ".toList ++ modulePath) s
    rw [outcome_bind_of_ok hsay]
    exact ⟨[], .of_adds (adds_messages s messages) _, by rintro _ ⟨⟩; rfl⟩
  rename_i hdirectory
  rcases Search.outcome_resolverClasses_cases modulePath s with
    ⟨e, s', hsearch, hadds⟩ | ⟨words, hwords, hsearch⟩
  · rw [outcome_bind_of_error hsearch]
    exact ⟨[], .of_adds hadds _, by rintro _ ⟨⟩⟩
  have hcalled := adds_called s words
  rw [outcome_bind_of_ok hsearch]
  rcases outcome_readEntries_cases (s.answers.head?.toList.flatMap Answer.printed)
    (called s (.words words)) with
    ⟨e, hread⟩ | ⟨entries, hentries, hread⟩
  · rw [outcome_bind_of_error hread]
    exact ⟨[], .of_adds hcalled _, by rintro _ ⟨⟩⟩
  rw [outcome_bind_of_ok hread]
  split
  · exact ⟨[], .of_adds hcalled _, by rintro _ ⟨⟩; rfl⟩
  rename_i hne
  rcases outcome_writeSettings_cases modulePath (Settings.render entries)
    (called s (.words words)) with
    ⟨r, s', hwrite, hadds, hr⟩ | ⟨s', hwrite, hadds⟩
  · refine ⟨[], ?_⟩
    cases r with
    | error e =>
      rw [outcome_bind_of_error hwrite]
      exact ⟨.of_adds (hcalled.append hadds) _, by rintro _ ⟨⟩⟩
    | ok result =>
      cases result with
      | none =>
        rw [outcome_bind_of_ok hwrite]
        exact ⟨.of_adds (hcalled.append hadds) _, by rintro _ ⟨⟩; rfl⟩
      | some path => exact absurd rfl (hr path)
  · rw [outcome_bind_of_ok hwrite]
    have hsettings := settingsOf_of_adds (by simpa using hdirectory) hwords hentries hne rfl hadds
    refine ⟨[_], ⟨hcalled.append hadds, List.Sublist.refl _, ?_⟩, ?_⟩
    · intro w hw
      rw [List.mem_singleton.mp hw]
      exact ⟨modulePath, List.mem_singleton_self _, hsettings⟩
    · rintro _ ⟨⟩
      rw [← hcalled.workingDirectory_eq, ← hadds.workingDirectory_eq]
      rfl

/-- The modules one after the other, up to the first that fails, if any. -/
theorem setsUp_modules (parentDirectory : Option Text) (modules : List Text) (s : Session) :
    ∃ ws, SetsUp modules ws [] s (outcome (modules.mapM (setUpModule parentDirectory)) s).2 ∧
      ∀ created, (outcome (modules.mapM (setUpModule parentDirectory)) s).1 = .ok created →
        created.filterMap id =
          ws.map (nameFrom s.workingDirectory (parentDirectory.getD ['.'])) := by
  induction modules generalizing s with
  | nil => exact ⟨[], .of_adds (Adds.refl s) _, by rintro _ ⟨⟩; rfl⟩
  | cons m modules ih =>
    rw [List.mapM_cons]
    obtain ⟨ws, hfirst, hname⟩ := setsUp_setUpModule parentDirectory m s
    rcases hm : outcome (setUpModule parentDirectory m) s with ⟨r, t⟩
    rw [hm] at hfirst hname
    cases r with
    | error e =>
      rw [outcome_bind_of_error hm]
      have hrest : SetsUp modules [] [] t t := .of_adds (Adds.refl t) modules
      exact ⟨ws ++ [], hfirst.append hrest, by rintro _ ⟨⟩⟩
    | ok path =>
      rw [outcome_bind_of_ok hm, outcome_bind_pure]
      obtain ⟨ws', hrest, hnames⟩ := ih t
      refine ⟨ws ++ ws', hfirst.append hrest, ?_⟩
      intro created hcreated
      cases hmodules : (outcome (modules.mapM (setUpModule parentDirectory)) t).1 with
      | error e =>
        rw [hmodules] at hcreated
        cases hcreated
      | ok paths =>
        rw [hmodules] at hcreated
        cases hcreated
        rw [List.map_append, ← hname path rfl, ← hfirst.adds.workingDirectory_eq,
          ← hnames paths hmodules]
        cases path <;> rfl

end Setup

end NlsBundle
