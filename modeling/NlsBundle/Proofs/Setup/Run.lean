import NlsBundle.Proofs.Path.Relative
import NlsBundle.Proofs.Setup.Module

/-!
# Setup runs report what they write

A run sets up its modules and then reports and packs the files that it has created. Proved here:

* `outcome_conclude_cases`: after its modules a run prints their names and ends with one line for
  the shell, or it fails before that;
* `setsUp_run`: up to that line a run writes settings of its modules and no other file;
* `locate_settingsPath`: these settings are in the settings directory of the module;
* `reported_eq_written`: the paths that a run reports, and the names that it packs, lead to the
  files that it has written.
-/

namespace NlsBundle

open NlsBundle.Action

namespace Action

/-- A call takes the next answer and is on record, whatever the answer is. -/
theorem outcome_call_cases (command : Command) (s : Session) :
    ∃ r, outcome (call command) s = (r, called s command) := by
  unfold call
  rw [outcome_bind_of_ok (outcome_record _ s)]
  unfold nextAnswer
  obtain ⟨tree, dir, processors, answers, threshold, journal⟩ := s
  cases answers with
  | nil => exact ⟨_, rfl⟩
  | cons answer answers =>
    cases answer with
    | failure => exact ⟨_, rfl⟩
    | noProgram => rcases command with ((_ | _) | _) <;> exact ⟨_, rfl⟩
    | output content => cases content <;> exact ⟨_, rfl⟩

end Action

namespace Setup

variable {s s' : Session}

/-! ## The end of a run -/

/-- What a run does when it has set up its modules. -/
def conclude (options : Options) (created : List Text) : Action Unit := do
  Action.say .info "Files created:".toList
  report options.parentDirectory created
  let _ ← createArchive options.archivePath created options.parentDirectory
  pure ()

theorem run_eq (options : Options) : run options = (do
    let modules := options.modulePaths.map (← get).locate
    let created := (← modules.mapM (setUpModule options.parentDirectory)).filterMap id
    conclude options created) := rfl

theorem outcome_report_cases (parentDirectory : Option Text) (paths : List Text) (s : Session) :
    (∃ e, outcome (report parentDirectory paths) s = (.error e, s)) ∨
      ∃ line, (∀ directory, parentDirectory = some directory →
          line = Text.join ['\n'] (paths.map (Path.join directory))) ∧
        outcome (report parentDirectory paths) s = (.ok (), { s with
          journal := { s.journal with printed := s.journal.printed ++ (line ++ ['\n']) } }) := by
  cases parentDirectory with
  | some directory => exact Or.inr ⟨_, by rintro _ ⟨⟩; rfl, rfl⟩
  | none =>
    cases paths with
    | nil => exact Or.inr ⟨[], by rintro _ ⟨⟩, rfl⟩
    | cons path paths => exact Or.inl ⟨_, rfl⟩

/-- The line that packs the files of a run. -/
def packingLine (options : Options) (names : List Text) : Text :=
  archiveLine options.archivePath names options.parentDirectory

/-- The end of a run fails before the shell is called, or the line that packs the files is the last
thing that it does. -/
theorem outcome_conclude_cases (options : Options) (created : List Text) (s : Session) :
    ∃ out t, Adds [] out s t ∧
      ((∃ e, outcome (conclude options created) s = (.error e, t)) ∨
        (∃ r, outcome (conclude options created) s =
          (r, called t (.shell (packingLine options created)))) ∧
        ∀ directory, options.parentDirectory = some directory →
          out = Text.join ['\n'] (created.map (Path.join directory)) ++ ['\n']) := by
  unfold conclude
  obtain ⟨messages, hsay⟩ := outcome_say_cases .info "Files created:".toList s
  rw [outcome_bind_of_ok hsay]
  have hsaid := adds_messages s messages
  generalize { s with journal := { s.journal with messages } } = s₁ at hsaid
  rcases outcome_report_cases options.parentDirectory created s₁ with
    ⟨e, hreport⟩ | ⟨line, hline, hreport⟩
  · rw [outcome_bind_of_error hreport]
    exact ⟨[], s₁, hsaid, Or.inl ⟨e, rfl⟩⟩
  · rw [outcome_bind_of_ok hreport]
    have hprinted := hsaid.append (adds_printed s₁ (line ++ ['\n']))
    generalize { s₁ with journal := _ } = s₂ at hprinted
    refine ⟨_, s₂, hprinted, Or.inr ⟨?_, ?_⟩⟩
    · obtain ⟨r, hcall⟩ : ∃ r,
          outcome (createArchive options.archivePath created options.parentDirectory) s₂ =
            (r, called s₂ (.shell (packingLine options created))) := outcome_call_cases _ s₂
      cases r with
      | error e => exact ⟨_, outcome_bind_of_error hcall⟩
      | ok words => exact ⟨_, outcome_bind_of_ok hcall⟩
    · intro directory hdirectory
      rw [hline directory hdirectory, List.nil_append]

/-! ## The whole run -/

/-- The names of the files of a run, as seen from its parent directory. -/
def namesOf (options : Options) (s : Session) (ws : List Write) : List Text :=
  ws.map (nameFrom s.workingDirectory (options.parentDirectory.getD ['.']))

/-- A run sets up its modules, up to a session in which it fails or which it hands to the shell. -/
theorem setsUp_run (options : Options) (s : Session) :
    ∃ ws out t, SetsUp (options.modulePaths.map s.locate) ws out s t ∧
      ((∃ e, outcome (run options) s = (.error e, t)) ∨
        (∃ r, outcome (run options) s =
          (r, called t (.shell (packingLine options (namesOf options s ws))))) ∧
        ∀ directory, options.parentDirectory = some directory →
          out = Text.join ['\n'] ((namesOf options s ws).map (Path.join directory)) ++ ['\n']) := by
  rw [run_eq, outcome_bind_of_ok (outcome_get s)]
  dsimp only
  obtain ⟨ws, hmodules, hnames⟩ :=
    setsUp_modules options.parentDirectory (options.modulePaths.map s.locate) s
  rcases hrun : outcome ((options.modulePaths.map s.locate).mapM
    (setUpModule options.parentDirectory)) s with ⟨r, s₁⟩
  rw [hrun] at hmodules hnames
  cases r with
  | error e =>
    rw [outcome_bind_of_error hrun]
    exact ⟨ws, [], s₁, hmodules, Or.inl ⟨e, rfl⟩⟩
  | ok results =>
    rw [outcome_bind_of_ok hrun, hnames results rfl]
    obtain ⟨out, t, hout, hend⟩ := outcome_conclude_cases options (namesOf options s ws) s₁
    have hall := hmodules.append (SetsUp.of_adds hout [])
    rw [List.append_nil, List.append_nil, List.nil_append] at hall
    exact ⟨ws, out, t, hall, hend⟩

/-! ## Where settings are -/

section

open NlsBundle.Path

theorem settingsPath_rooted {n : Nat} (hn : 0 < n) {cs : List Text} (h : ∀ c ∈ cs, IsPlain c) :
    settingsPath (rooted n cs) = rooted n (cs ++ [Settings.directoryName, Settings.fileName]) := by
  have hcs : ∀ c ∈ cs, IsComponent c := fun c hc => (h c hc).toIsComponent
  have hdirectory : IsComponent Settings.directoryName := by decide
  rw [settingsPath, join_rooted hn hcs hdirectory, join_rooted hn _ (by decide), List.append_assoc]
  · rfl
  · exact List.forall_mem_append.mpr ⟨hcs, by simpa using hdirectory⟩

/-- The settings of a module have a path in normal form. -/
theorem exists_settingsPath_locate (h : isAbsolute s.workingDirectory = true) (path : Text) :
    ∃ cs, (∀ c ∈ cs, IsPlain c) ∧
      settingsPath (s.locate path) = rooted (leadingSlashes (join s.workingDirectory path)) cs := by
  have habsolute := isAbsolute_join_workingDirectory h path
  have hplain : ∀ c ∈ resolve true (components (join s.workingDirectory path)), IsPlain c :=
    fun _ => plain_of_mem_resolve
  refine ⟨resolve true (components (join s.workingDirectory path)) ++
    [Settings.directoryName, Settings.fileName], ?_, ?_⟩
  · exact List.forall_mem_append.mpr ⟨hplain, by decide⟩
  · rw [Session.locate, absolute, normalize_of_isAbsolute habsolute]
    exact settingsPath_rooted (leadingSlashes_pos habsolute) hplain

theorem locate_settingsPath (h : isAbsolute s.workingDirectory = true) (path : Text) :
    s.locate (settingsPath (s.locate path)) = settingsPath (s.locate path) := by
  obtain ⟨cs, hcs, heq⟩ := exists_settingsPath_locate h path
  have hpos := leadingSlashes_pos (isAbsolute_join_workingDirectory h path)
  rw [heq, Session.locate, absolute, join_of_isAbsolute (isAbsolute_rooted hpos cs)]
  exact normalize_rooted hpos (leadingSlashes_le_two _) hcs

theorem leadingSlashes_settingsPath (h : isAbsolute s.workingDirectory = true) (path : Text) :
    leadingSlashes (join s.workingDirectory (settingsPath (s.locate path))) =
      leadingSlashes (join s.workingDirectory path) := by
  obtain ⟨cs, hcs, heq⟩ := exists_settingsPath_locate h path
  have hpos := leadingSlashes_pos (isAbsolute_join_workingDirectory h path)
  rw [heq, join_of_isAbsolute (isAbsolute_rooted hpos cs)]
  exact leadingSlashes_rooted (fun c hc => (hcs c hc).toIsComponent) (leadingSlashes_le_two _)

end

/-! ## What is reported -/

section

open NlsBundle.Path

theorem normalize_nameFrom (habsolute : isAbsolute s.workingDirectory = true)
    (hwd : leadingSlashes s.workingDirectory ≠ 2) {directory m : Text}
    (hdirectory : leadingSlashes directory ≠ 2) (hm : leadingSlashes m ≠ 2) {w : Write}
    (hw : SettingsOf s s' (s.locate m) w) :
    normalize (join (join s.workingDirectory directory) (nameFrom s.workingDirectory directory w)) =
      w.place := by
  rw [nameFrom, hw.given_eq, hw.place_eq]
  refine normalize_join_relative habsolute ?_
  rw [leadingSlashes_settingsPath habsolute, leadingSlashes_join_eq_one habsolute hwd hm,
    leadingSlashes_join_eq_one habsolute hwd hdirectory]

theorem locate_join_nameFrom (habsolute : isAbsolute s.workingDirectory = true) (directory : Text)
    (w : Write) :
    s.locate (join directory (nameFrom s.workingDirectory directory w)) =
      normalize (join (join s.workingDirectory directory)
        (nameFrom s.workingDirectory directory w)) := by
  rw [Session.locate, absolute, nameFrom]
  exact normalize_join_join habsolute (relative_spec habsolute _ _).1

end

/-- The paths that a run reports lead to the files that it has written, in the order of the modules,
and so do the names that it packs, as seen from the parent directory. -/
theorem reported_eq_written {modules : List Text} {directory : Text} {archive : Option Text}
    {s s' : Session} (hrun : outcome (run ⟨modules, some directory, archive⟩) s = (.ok (), s'))
    (habsolute : Path.isAbsolute s.workingDirectory = true)
    (hslashes : ∀ path ∈ s.workingDirectory :: directory :: modules, Path.leadingSlashes path ≠ 2) :
    ∃ (ws : List Write) (names : List Text),
      s'.journal.writes = s.journal.writes ++ ws ∧
      (ws.map Write.given).Sublist (modules.map fun m => settingsPath (s.locate m)) ∧
      s'.journal.printed =
        s.journal.printed ++ (Text.join ['\n'] (names.map (Path.join directory)) ++ ['\n']) ∧
      (names.map (Path.join directory)).map s.locate = ws.map Write.place ∧
      s'.journal.commands.getLast? = some (.shell (archiveLine archive names (some directory))) ∧
      names.map (fun name =>
        Path.normalize (Path.join (Path.join s.workingDirectory directory) name)) =
        ws.map Write.place := by
  obtain ⟨ws, out, t, hsetsUp, ⟨e, herror⟩ | ⟨⟨r, hend⟩, hout⟩⟩ :=
    setsUp_run ⟨modules, some directory, archive⟩ s
  · rw [hrun] at herror
    cases herror
  rw [hrun] at hend
  cases hend
  have hnames : namesOf ⟨modules, some directory, archive⟩ s ws =
      ws.map (nameFrom s.workingDirectory directory) := rfl
  rw [hnames] at hout ⊢
  have hplace : ∀ w ∈ ws, Path.normalize (Path.join (Path.join s.workingDirectory directory)
      (nameFrom s.workingDirectory directory w)) = w.place := by
    intro w hw
    obtain ⟨path, hpath, hsettings⟩ := hsetsUp.settingsOf w hw
    obtain ⟨m, hm, rfl⟩ := List.mem_map.mp hpath
    exact normalize_nameFrom habsolute (hslashes _ (by simp)) (hslashes _ (by simp))
      (hslashes m (by simp [hm])) hsettings
  refine ⟨ws, ws.map (nameFrom s.workingDirectory directory), hsetsUp.adds.writes_eq, ?_, ?_, ?_,
    List.getLast?_concat, ?_⟩
  · simpa [Function.comp_def] using hsetsUp.sublist
  · rw [← hout directory rfl]
    exact hsetsUp.adds.printed_eq
  · rw [List.map_map, List.map_map]
    refine List.map_congr_left fun w hw => ?_
    rw [Function.comp_apply, Function.comp_apply, locate_join_nameFrom habsolute, hplace w hw]
  · rw [List.map_map]
    refine List.map_congr_left fun w hw => ?_
    rw [Function.comp_apply, hplace w hw]

/-- Two modules with a class each, and the answers to the searches and the archive program. -/
def twoModules : Session where
  tree := .ofListing (["/w/a/Msg.java", "/w/b/c/Msg.java"].map fun path => (path.toList, .text
    ("package shop;\npublic class Msg \x7b\n".toList ++
      "  private static final String BUNDLE_NAME = \"shop.msg\";\n".toList))) []
  workingDirectory := "/w".toList
  processors := 1
  answers :=
    ["a/Msg.java", "b/c/Msg.java", "/w/a/Msg.java", ""].map fun text => .output (.text text.toList)
  threshold := .info
  journal := .empty

/-- The two modules, one of them a second time, and a directory that is not there. -/
def fourPaths : List Text := ["a", "./b/", "/w/x/../a", "none"].map String.toList

theorem reported_eq_written_two :
    ∃ s' names, outcome (run ⟨fourPaths, some "b/../../v//".toList, none⟩) twoModules =
      (.ok (), s') ∧
      s'.journal.printed = Text.join ['\n'] (names.map (Path.join "b/../../v//".toList)) ++ ['\n'] ∧
      (names.map (Path.join "b/../../v//".toList)).map twoModules.locate =
        ["/w/a/.settings/de.guhsoft.jinto.core.prefs",
          "/w/b/.settings/de.guhsoft.jinto.core.prefs"].map String.toList ∧
      s'.journal.commands.getLast? =
        some (.shell (archiveLine none names (some "b/../../v//".toList))) := by
  have heval : (outcome (run ⟨fourPaths, some "b/../../v//".toList, none⟩) twoModules).1 = .ok () ∧
      (outcome (run ⟨fourPaths, some "b/../../v//".toList, none⟩) twoModules).2.journal.writes.map
        Write.place =
        ["/w/a/.settings/de.guhsoft.jinto.core.prefs",
          "/w/b/.settings/de.guhsoft.jinto.core.prefs"].map String.toList := by
    decide +kernel
  have hrun := outcome_eq_of_fst heval.1
  obtain ⟨ws, names, hwrites, _, hprinted, hreported, harchive, _⟩ :=
    reported_eq_written hrun (by decide) (by decide +kernel)
  refine ⟨_, names, hrun, hprinted, ?_, harchive⟩
  rw [hreported, ← heval.2, hwrites]
  rfl

end Setup

end NlsBundle
