import NlsBundle.CommandLine.Programs
import NlsBundle.Proofs.Conversion.Plan

/-!
# What a run writes

A run plans, then converts the source files with usages, then adapts the message classes. Proved
here:

* `keeps_convertUsages`, `keeps_adaptClasses`: each phase writes to the files it is about;
* `outcome_run_of_unprepared`, `outcome_run_of_failing_usages`: a failure in a phase is the end of
  the run;
* `exists_writes_run`: what is written by a run is what its phases write, one after the other;
* `runConversion_plans_then_writes`: so a run that cannot be planned writes nothing, and any other
  run writes, first, to source files that were found and are no message classes, and then to message
  classes that were found.
-/

namespace NlsBundle.Conversion

open NlsBundle.Action

/-! ## Phases -/

theorem keeps_convertUsages (options : Options) {job : Job} {p : Text → Prop}
    (hp : ∀ list ∈ job.lists, ∀ path ∈ list, p path) :
    Keeps (WritesAt p) (convertUsages options job) := by
  have hlist : ∀ list ∈ job.lists, Keeps (WritesAt p) (convertFiles job.rules list) :=
    fun list hlist => keeps_convertFiles job.rules (hp list hlist)
  unfold convertUsages
  split
  · exact Keeps.bind (Keeps.mapM hlist) fun flags => Keeps.pure _
  · refine Keeps.bind (Keeps.mapM fun list h => (hlist list h).attempt) fun results => ?_
    exact Keeps.bind (Keeps.mapM fun r _ => Keeps.ofExcept id r) fun flags => Keeps.pure _

theorem keeps_removeLines {p : Text → Prop} {path : Text} (hp : p path) (lines : List Text) :
    Keeps (WritesAt p) (removeLines path lines) := by
  refine Keeps.bind (keeps_readText path) fun content => ?_
  exact Keeps.bind (keeps_writeText hp _) fun _ => Keeps.pure _

theorem keeps_adaptClass {p : Text → Prop} {path : Text} (hp : p path) (lines : List Text) :
    Keeps (WritesAt p) (adaptClass path lines) := by
  refine Keeps.bind ((untouched_say _ _).writesAt p) fun _ => ?_
  refine Keeps.bind (keeps_removeLines hp lines) fun removed => ?_
  refine Keeps.bind (keeps_readText path) fun content => ?_
  cases MessageClass.adapt content with
  | error e =>
    cases e with
    | noStaticBlock => exact Keeps.bind ((untouched_say _ _).writesAt p) fun _ => Keeps.pure _
    | noBaseClassImport => exact Keeps.throw _
    | noClassEnd => exact Keeps.throw _
  | ok adapted =>
    dsimp only
    split
    · exact Keeps.bind (keeps_writeText hp _) fun _ => Keeps.pure _
    · exact Keeps.pure _

theorem keeps_adaptClasses {job : Job} {p : Text → Prop} (hp : ∀ path ∈ job.classPaths, p path) :
    Keeps (WritesAt p) (adaptClasses job) :=
  Keeps.mapM fun path hpath => keeps_adaptClass (hp path hpath) _

/-! ## Runs -/

section

variable {options : Options} {s s₀ s₁ : Session} {job : Job} {e : Failure}

theorem outcome_run_of_unprepared (h : outcome (prepare options) s = (.error e, s₀)) :
    outcome (run options) s = (.error e, s₀) := by
  rw [run_eq_phases, outcome_bind_of_error h]

theorem outcome_run_of_failing_usages (h : outcome (prepare options) s = (.ok job, s₀))
    (hu : outcome (convertUsages options job) s₀ = (.error e, s₁)) :
    outcome (run options) s = (.error e, s₁) := by
  rw [run_eq_phases, outcome_bind_of_ok h, outcome_bind_of_error hu]

theorem session_run_of_usages {flags : List Bool} (h : outcome (prepare options) s = (.ok job, s₀))
    (hu : outcome (convertUsages options job) s₀ = (.ok flags, s₁)) :
    (outcome (run options) s).2 = (outcome (adaptClasses job) s₁).2 := by
  rw [run_eq_phases, outcome_bind_of_ok h, outcome_bind_of_ok hu, outcome_bind_pure]

end

/-- What a run has written comes from its second and third phase, and goes to files that were
found. -/
theorem exists_writes_run (options : Options) (s : Session) :
    ∃ usages classes, (outcome (run options) s).2.journal.writes =
      s.journal.writes ++ usages ++ classes ∧
      (∀ w ∈ usages, w.given ∈ foundSources options s ∧ w.given ∉ foundClasses options s) ∧
      (∀ w ∈ classes, w.given ∈ foundClasses options s) ∧
      (∀ e s₀, outcome (prepare options) s = (.error e, s₀) → usages = [] ∧ classes = []) ∧
      ∀ job s₀, outcome (prepare options) s = (.ok job, s₀) →
        (outcome (convertUsages options job) s₀).2.journal.writes = s.journal.writes ++ usages ∧
        ∀ e s₁, outcome (convertUsages options job) s₀ = (.error e, s₁) → classes = [] := by
  have hplanning : Untouched s (outcome (prepare options) s).2 := keeps_prepare options s
  rcases hprepare : outcome (prepare options) s with ⟨r, s₀⟩
  rw [hprepare] at hplanning
  cases r with
  | error e =>
    refine ⟨[], [], ?_, by simp, by simp, by simp, by simp⟩
    rw [outcome_run_of_unprepared hprepare, hplanning.writes_eq]
    simp
  | ok job =>
    obtain ⟨hclassPaths, hlists, _, _⟩ := of_prepare_eq_ok hprepare
    obtain ⟨_, usages, husages, hgiven⟩ := keeps_convertUsages options hlists s₀
    rw [hplanning.writes_eq] at husages
    rcases husage : outcome (convertUsages options job) s₀ with ⟨r, s₁⟩
    rw [husage] at husages
    cases r with
    | error e =>
      refine ⟨usages, [], ?_, hgiven, by simp, by simp, ?_⟩
      · rw [outcome_run_of_failing_usages hprepare husage, husages, List.append_nil]
      · rintro job' s₀' ⟨⟩
        exact ⟨by rw [husage, husages], fun _ _ _ => rfl⟩
    | ok flags =>
      have hclasses : ∀ path ∈ job.classPaths, path ∈ foundClasses options s := by
        intro path hpath
        rwa [hclassPaths] at hpath
      obtain ⟨_, classes, hwrites, hgiven'⟩ := keeps_adaptClasses hclasses s₁
      refine ⟨usages, classes, ?_, hgiven, hgiven', by simp, ?_⟩
      · rw [session_run_of_usages hprepare husage, hwrites, husages]
      · rintro job' s₀' ⟨⟩
        refine ⟨by rw [husage, husages], fun e s₁' h => ?_⟩
        rw [husage] at h
        cases h

/-- **A run plans before it writes, and writes only what was found.** If a search program is missing
or prints what is no text, or if a message class that was found is missing, is no text, has no
package or has a declaration line without a variable, then the run fails, and no file is written.
Whatever happens, the run writes `usages` in its second phase and `classes` after that. The paths of
the first ones were printed by a search for source files and not by one for message classes, and
those of the others by a search for message classes. If the second phase fails, nothing is written
after it. -/
theorem runConversion_plans_then_writes {arguments : List Text} {a : CommandLine.Arguments}
    (hparse : CommandLine.parse CommandLine.conversionProgram arguments = .ok a) (s : Session) :
    (Unplannable (CommandLine.conversionOptions a) s →
      ∃ e s', outcome (CommandLine.runConversion arguments) s = (.error e, s') ∧ s'.tree = s.tree ∧
        s'.journal.writes = s.journal.writes) ∧
    ∃ usages classes,
      (outcome (CommandLine.runConversion arguments) s).2.journal.writes =
        s.journal.writes ++ usages ++ classes ∧
      (∀ w ∈ usages, w.given ∈ foundSources (CommandLine.conversionOptions a) s ∧
        w.given ∉ foundClasses (CommandLine.conversionOptions a) s) ∧
      (∀ w ∈ classes, w.given ∈ foundClasses (CommandLine.conversionOptions a) s) ∧
      (∀ e s₀, outcome (prepare (CommandLine.conversionOptions a)) s = (.error e, s₀) →
        usages = [] ∧ classes = []) ∧
      ∀ job s₀, outcome (prepare (CommandLine.conversionOptions a)) s = (.ok job, s₀) →
        (outcome (convertUsages (CommandLine.conversionOptions a) job) s₀).2.journal.writes =
          s.journal.writes ++ usages ∧
        ∀ e s₁, outcome (convertUsages (CommandLine.conversionOptions a) job) s₀ = (.error e, s₁) →
          classes = [] := by
  have hrun : CommandLine.runConversion arguments = run (CommandLine.conversionOptions a) := by
    rw [CommandLine.runConversion, CommandLine.readArguments, hparse]
    rfl
  rw [hrun]
  refine ⟨fun hunplannable => ?_, exists_writes_run _ s⟩
  have hplanning : Untouched s (outcome (prepare (CommandLine.conversionOptions a)) s).2 :=
    keeps_prepare _ s
  rcases hprepare : outcome (prepare (CommandLine.conversionOptions a)) s with ⟨r, s₀⟩
  rw [hprepare] at hplanning
  cases r with
  | ok job => exact absurd hprepare hunplannable.not_prepared
  | error e =>
      exact ⟨e, s₀, outcome_run_of_unprepared hprepare, hplanning.tree_eq, hplanning.writes_eq⟩

/-- A module with a message class and a file that uses it, and what the search programs print about
it. -/
def smallModule (messageClass : Text) : Session where
  tree :=
    .ofListing [("/w/M.java".toList, .text messageClass),
      ("/w/U.java".toList, .text "f(M.a);\n".toList)] []
  workingDirectory := "/".toList
  processors := 2
  answers := [.output (.text "/w/M.java\n".toList), .output (.text "/w/U.java\n/w/M.java\n".toList)]
  threshold := .warning
  journal := .empty

/-- A message class with one variable. -/
def smallClass : Text :=
  "package p;\nclass M extends NLS \x7b\n  public static String a;\n\x7d\n".toList

theorem runConversion_plans_then_writes_small :
    (∃ e s', outcome (CommandLine.runConversion ["--single".toList, "w".toList])
        (smallModule (smallClass.drop 1)) = (.error e, s') ∧
      s'.tree = (smallModule (smallClass.drop 1)).tree ∧ s'.journal.writes = []) ∧
    (outcome (CommandLine.runConversion ["w".toList]) (smallModule smallClass)).2.journal.writes.map
      Write.given = ["/w/U.java".toList, "/w/M.java".toList] ∧
    ∃ usages classes,
      (outcome (CommandLine.runConversion ["w".toList]) (smallModule smallClass)).2.journal.writes =
        usages ++ classes ∧
      (∀ w ∈ usages, w.given ≠ "/w/M.java".toList) ∧
      ∀ w ∈ classes, w.given = "/w/M.java".toList := by
  have hparse : CommandLine.parse CommandLine.conversionProgram ["--single".toList, "w".toList] =
      .ok ⟨["w".toList], [(.singleProcess, none)]⟩ := by decide +kernel
  have hparse' : CommandLine.parse CommandLine.conversionProgram ["w".toList] =
      .ok ⟨["w".toList], []⟩ := by decide +kernel
  refine ⟨?_, by decide +kernel, ?_⟩
  · -- without its first letter the class has no line with a package
    refine (runConversion_plans_then_writes hparse _).1 ?_
    exact .noPackage "/w/M.java".toList (smallClass.drop 1) (by decide +kernel) (by decide +kernel)
      (by decide +kernel)
  · have hfound :
        foundClasses (CommandLine.conversionOptions ⟨["w".toList], []⟩) (smallModule smallClass) =
        ["/w/M.java".toList] := by decide +kernel
    obtain ⟨usages, classes, hwrites, husages, hclasses, _⟩ :=
      (runConversion_plans_then_writes hparse' (smallModule smallClass)).2
    rw [hfound] at husages hclasses
    refine ⟨usages, classes, hwrites, ?_, ?_⟩
    · intro w hw
      simpa using (husages w hw).2
    · intro w hw
      simpa using hclasses w hw

end NlsBundle.Conversion
