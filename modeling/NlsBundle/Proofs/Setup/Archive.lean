import NlsBundle.CommandLine.Programs
import NlsBundle.Proofs.FileTree.Change
import NlsBundle.Proofs.Setup.Run

/-!
# Setup runs overwrite nothing but the archive

Up to its last line a run only adds files. That line makes the shell pack them, and what the shell
does is not known here: it is assumed to write the archive and no other file. Proved here:

* `adds_runSetup`: whatever the arguments, the tree, the answers of the programs and the shell are,
  and whether or not the run succeeds, a run adds settings of its modules and then ends, or hands
  one line to the shell;
* `runSetup_only_adds`: so no file that was there is changed before that line, none is written
  twice, and after the line all files but the archive are as they were;
* `runSetup_replaces_archive`: an archive that was there is lost.
-/

namespace NlsBundle

open NlsBundle.Action

/-- No file is written but the one at this place. -/
def FileTree.WritesOnly (place : Text) (effect : FileTree → FileTree) : Prop :=
  ∀ tree path, path ≠ place → (effect tree).file? path = tree.file? path

namespace Setup

open CommandLine (Arguments parse setupProgram setupOptions runSetup)

variable {s t : Session}

/-! ## The archive -/

/-- The name under which the settings of a module are packed. -/
def memberName (options : Options) (s : Session) (m : Text) : Text :=
  Path.relative s.workingDirectory (settingsPath (s.locate m)) (options.parentDirectory.getD ['.'])

/-- Where the archive is. The line goes to the parent directory first, so its path is seen from
there. -/
def archivePlace (options : Options) (s : Session) : Text :=
  s.locate (Path.join (shown options.parentDirectory) (shown options.archivePath))

/-- The arguments are read as these options. -/
def ReadAs (arguments : List Text) (options : Options) : Prop :=
  ∃ given, parse setupProgram arguments = .ok given ∧ setupOptions given = options

/-- The place is that of the archive. -/
def IsArchive (arguments : List Text) (s : Session) (place : Text) : Prop :=
  ∃ options, ReadAs arguments options ∧ place = archivePlace options s

/-- The shell packs files as the line says: whichever settings of the modules these are, it writes
the archive and nothing else. -/
def ShellPacks (arguments : List Text) (s : Session) : Prop :=
  ∀ options, ReadAs arguments options →
    ∀ names, names ⊆ options.modulePaths.map (memberName options s) →
      FileTree.WritesOnly (archivePlace options s) (s.shell (packingLine options names))

theorem namesOf_subset {options : Options} {ws : List Write} {out : Text}
    (h : SetsUp (options.modulePaths.map s.locate) ws out s t) :
    namesOf options s ws ⊆ options.modulePaths.map (memberName options s) := by
  intro name hname
  obtain ⟨w, hw, rfl⟩ := List.mem_map.mp hname
  obtain ⟨path, hpath, hsettings⟩ := h.settingsOf w hw
  obtain ⟨m, hm, rfl⟩ := List.mem_map.mp hpath
  refine List.mem_map.mpr ⟨m, hm, ?_⟩
  rw [memberName, nameFrom, hsettings.given_eq]

/-! ## Runs -/

/-- A run ends as it is, or with a line that packs settings of the modules. -/
def EndsFrom (arguments : List Text) (s t s' : Session) : Prop :=
  s' = t ∨ ∃ options names, ReadAs arguments options ∧
    names ⊆ options.modulePaths.map (memberName options s) ∧
    s' = called t (.shell (packingLine options names))

theorem EndsFrom.writes_eq {arguments : List Text} {s' : Session}
    (h : EndsFrom arguments s t s') : s'.journal.writes = t.journal.writes := by
  rcases h with rfl | ⟨_, _, _, _, rfl⟩
  · rfl
  · rfl

/-- The last line leaves every file alone but the archive. -/
theorem EndsFrom.file_eq {arguments : List Text} {s' : Session} (h : EndsFrom arguments s t s')
    (heq : t.shell = s.shell) (hshell : ShellPacks arguments s) {path : Text}
    (hpath : ¬ IsArchive arguments s path) : s'.tree.file? path = t.tree.file? path := by
  rcases h with rfl | ⟨options, names, hoptions, hnames, rfl⟩
  · rfl
  · have hwrites := hshell options hoptions names hnames
    rw [← heq] at hwrites
    exact hwrites t.tree path fun hplace => hpath ⟨options, hoptions, hplace⟩

/-- A run adds settings of its modules, and then it ends. -/
theorem adds_runSetup (arguments : List Text) (s : Session) :
    ∃ ws out t, Adds ws out s t ∧ EndsFrom arguments s t (outcome (runSetup arguments) s).2 ∧
      ∀ w ∈ ws, ∃ options m, ReadAs arguments options ∧ m ∈ options.modulePaths ∧
        SettingsOf s t (s.locate m) w := by
  unfold runSetup CommandLine.readArguments
  cases hparse : parse setupProgram arguments with
  | error stop =>
    cases stop with
    | help => exact ⟨[], _, _, adds_printed s _, Or.inl rfl, by simp⟩
    | usage e => exact ⟨[], [], s, Adds.refl s, Or.inl rfl, by simp⟩
  | ok given =>
    have hread : ReadAs arguments (setupOptions given) := ⟨given, hparse, rfl⟩
    rw [outcome_bind_of_ok (outcome_pure given s)]
    obtain ⟨ws, out, t, hsetsUp, hend⟩ := setsUp_run (setupOptions given) s
    refine ⟨ws, out, t, hsetsUp.adds, ?_, fun w hw => ?_⟩
    · rcases hend with ⟨e, herror⟩ | ⟨⟨r, hcall⟩, _⟩
      · rw [herror]
        exact Or.inl rfl
      · rw [hcall]
        exact Or.inr ⟨_, _, hread, namesOf_subset hsetsUp, rfl⟩
    · obtain ⟨path, hpath, hsettings⟩ := hsetsUp.settingsOf w hw
      obtain ⟨m, hm, rfl⟩ := List.mem_map.mp hpath
      exact ⟨_, m, hread, hm, hsettings⟩

/-- **A setup run overwrites nothing but the archive.** This is for any arguments, any tree, any
answers of the programs and any shell, and whether the run succeeds or fails. A run writes settings
of the given modules only, each where nothing was and none twice, and comes to a session `t` in
which every file that was there is as before. There it ends, or it hands the line that packs the
settings to the shell. If the shell writes the archive only, then all other files that were there
are as before, and those that were written hold their settings. -/
theorem runSetup_only_adds (arguments : List Text) (s : Session) :
    let s' := (outcome (runSetup arguments) s).2
    ∃ (ws : List Write) (t : Session),
      s'.journal.writes = s.journal.writes ++ ws ∧ (ws.map Write.place).Nodup ∧
      (∀ w ∈ ws, s.tree.contains w.place = false ∧
        ∃ options m, ReadAs arguments options ∧ m ∈ options.modulePaths ∧
          SettingsOf s t (s.locate m) w ∧
          (Path.isAbsolute s.workingDirectory = true → w.place = settingsPath (s.locate m))) ∧
      (∀ path content, s.tree.file? path = some content → t.tree.file? path = some content) ∧
      EndsFrom arguments s t s' ∧
      (ShellPacks arguments s → ∀ path, ¬ IsArchive arguments s path →
        (∀ content, s.tree.file? path = some content → s'.tree.file? path = some content) ∧
        (path ∉ ws.map Write.place → s'.tree.file? path = s.tree.file? path) ∧
        ∀ w ∈ ws, w.place = path → s'.tree.file? path = some (.text w.content)) := by
  intro s'
  obtain ⟨ws, out, t, hadds, hend, hsettings⟩ := adds_runSetup arguments s
  have hkept : ∀ path content, s.tree.file? path = some content →
      t.tree.file? path = some content := by
    intro path content hfile
    rw [hadds.file_eq_of_isFile (by simp [FileTree.isFile, hfile]), hfile]
  refine ⟨ws, t, hend.writes_eq.trans hadds.writes_eq, hadds.nodup, ?_, hkept, hend, ?_⟩
  · intro w hw
    obtain ⟨options, m, hread, hm, hsettingsOf⟩ := hsettings w hw
    refine ⟨hadds.new w hw, options, m, hread, hm, hsettingsOf, fun habsolute => ?_⟩
    rw [hsettingsOf.place_eq, locate_settingsPath habsolute]
  · intro hshell path hpath
    rw [hend.file_eq hadds.shell_eq hshell hpath]
    refine ⟨hkept path, hadds.file_eq_of_notMem path, ?_⟩
    rintro w hw rfl
    exact hadds.file_eq_of_mem w hw

/-! ## An archive that was there -/

/-- A module with a class, and an archive beside it. The shell writes the archive anew, which is
shown by the two bytes that compressed files begin with. -/
def packedModule : Session where
  tree := .ofListing [("/w/m/Msg.java".toList, .text
    ("package p;\npublic class Msg \x7b\n".toList ++
      "  private static final String BUNDLE_NAME = \"b\";\n".toList)),
    ("/w/old.tgz".toList, .text "old".toList)] []
  workingDirectory := "/w/m".toList
  processors := 1
  answers := ["/w/m/Msg.java\n", ""].map fun text => .output (.text text.toList)
  threshold := .info
  journal := .empty
  shell _ tree := tree.put "/w/old.tgz".toList (.bytes [0x1f, 0x8b])

/-- The archive is named as seen from the directory above the module. -/
def packedArguments : List Text := ["-p", "..", "-t", "old.tgz", "."].map String.toList

theorem archivePlace_packed {options : Options} (h : ReadAs packedArguments options) :
    archivePlace options packedModule = "/w/old.tgz".toList := by
  obtain ⟨given, hgiven, rfl⟩ := h
  have hplace : (parse setupProgram packedArguments).toOption.map
      (fun given => archivePlace (setupOptions given) packedModule) = some "/w/old.tgz".toList := by
    decide +kernel
  rw [hgiven] at hplace
  exact Option.some.inj hplace

theorem shellPacks_packed : ShellPacks packedArguments packedModule := by
  intro options hoptions names _ tree path hpath
  rw [archivePlace_packed hoptions] at hpath
  exact FileTree.file?_put_of_ne hpath tree _

/-- What the run with these arguments comes to. -/
theorem outcome_runSetup_packed :
    let s' := (outcome (runSetup packedArguments) packedModule).2
    s'.journal.writes.map Write.place =
        ["/w/m/.settings/de.guhsoft.jinto.core.prefs".toList] ∧
      s'.tree.file? "/w/old.tgz".toList = some (.bytes [0x1f, 0x8b]) := by
  decide +kernel

theorem runSetup_only_adds_packed :
    let s' := (outcome (runSetup packedArguments) packedModule).2
    ShellPacks packedArguments packedModule ∧
      s'.tree.file? "/w/m/Msg.java".toList = packedModule.tree.file? "/w/m/Msg.java".toList ∧
      ∃ w : Write, s'.journal.writes = [w] ∧
        w.place = "/w/m/.settings/de.guhsoft.jinto.core.prefs".toList ∧
        s'.tree.file? w.place = some (.text w.content) := by
  intro s'
  obtain ⟨ws, t, hwrites, _, _, _, _, hfiles⟩ := runSetup_only_adds packedArguments packedModule
  have hother : ∀ place, place ≠ "/w/old.tgz".toList →
      ¬ IsArchive packedArguments packedModule place := by
    rintro place hne ⟨options, hoptions, rfl⟩
    exact hne (archivePlace_packed hoptions)
  have hplaces := outcome_runSetup_packed.1
  rw [hwrites] at hplaces
  obtain ⟨w, rfl, hplace⟩ := List.map_eq_singleton_iff.mp hplaces
  have hclass := hfiles shellPacks_packed "/w/m/Msg.java".toList (hother _ (by decide))
  have hsettings := hfiles shellPacks_packed w.place (hother _ (by rw [hplace]; decide))
  refine ⟨shellPacks_packed, hclass.2.1 ?_, w, hwrites, hplace, ?_⟩
  · rw [List.map_singleton, hplace]
    decide
  · exact hsettings.2.2 w List.mem_cons_self rfl

/-- An archive that was there before the run is lost, though the shell does nothing but what the
line says. -/
theorem runSetup_replaces_archive :
    ShellPacks packedArguments packedModule ∧
      packedModule.tree.file? "/w/old.tgz".toList = some (.text "old".toList) ∧
      (outcome (runSetup packedArguments) packedModule).2.tree.file? "/w/old.tgz".toList ≠
        some (.text "old".toList) := by
  refine ⟨shellPacks_packed, by decide +kernel, ?_⟩
  rw [outcome_runSetup_packed.2]
  decide

end Setup

end NlsBundle
