import NlsBundle.Proofs.Conversion.Phases
import NlsBundle.Proofs.Declaration.Naming

/-!
# Message classes that can be listed

Rules are built from the declaration lines of all message classes of a run. Proved here:

* `Rule.of_build_eq_error`: where no rules are built, some line of the listing is to blame;
* `outcome_plan`: message classes that can be read and have packages give a listing, and nothing but
  building the rules can go wrong;
* `plan_eq_ok_iff_named`: so planning succeeds exactly if every selected line has the type as a word
  before its last one;
* `plan_fails_qualified_type`: a selected line can have the type as part of a word only, and then
  planning fails.
-/

namespace NlsBundle

namespace Rule

theorem exists_of_mapM_eq_error {ε α β : Type} {f : α → Except ε β} {xs : List α} {e : ε}
    (h : xs.mapM f = .error e) : ∃ x ∈ xs, f x = .error e := by
  induction xs with
  | nil => cases h
  | cons x xs ih =>
    rw [List.mapM_cons] at h
    cases hx : f x with
    | error e' =>
      rw [hx] at h
      cases h
      exact ⟨x, List.mem_cons_self, hx⟩
    | ok y =>
      rw [hx] at h
      cases hxs : xs.mapM f with
      | error e' =>
        rw [hxs] at h
        cases h
        obtain ⟨z, hz, hfz⟩ := ih hxs
        exact ⟨z, List.mem_cons_of_mem x hz, hfz⟩
      | ok ys =>
        rw [hxs] at h
        cases h

/-- Where no rules are built, there is a line without a rule. -/
theorem of_build_eq_error {lines : List (Text × List Text)} {packages : List (Text × Text)}
    {e : BuildError} (h : build lines packages = .error e) :
    ∃ file ∈ lines, ∃ line ∈ file.2, ofLine packages file.1 line = .error e := by
  rw [build] at h
  simp only [bind, Except.bind] at h
  split at h
  · rename_i e' hfound
    cases h
    obtain ⟨file, hfile, hlines⟩ := exists_of_mapM_eq_error hfound
    obtain ⟨line, hline, hrule⟩ := exists_of_mapM_eq_error hlines
    exact ⟨file, List.mem_mergeSort.mp hfile, line, hline, hrule⟩
  · cases h

/-- A line of a file with a known package has no rule only because it names no variable. -/
theorem of_ofLine_eq_error {packages : List (Text × Text)} {path line : Text} {e : BuildError}
    (hpackage : (packages.lookup path).isSome = true) (h : ofLine packages path line = .error e) :
    ∃ e', e = .badLine e' ∧ Declaration.variableName line = .error e' := by
  obtain ⟨package, hlookup⟩ := Option.isSome_iff_exists.mp hpackage
  cases hname : Declaration.variableName line with
  | ok name =>
    simp only [ofLine, hname, hlookup, Except.mapError, bind, Except.bind] at h
    cases h
  | error e' =>
    simp only [ofLine, hname, Except.mapError, bind, Except.bind] at h
    cases h
    exact ⟨e', rfl, rfl⟩

end Rule

namespace Conversion

open NlsBundle.Action

/-! ## Reading -/

theorem outcome_readAll_of_forall {α : Type} {reader : Text → Action α} {paths : List Text}
    {s : Session} (h : ∀ path ∈ paths, ∃ x, outcome (reader path) s = (.ok x, s)) :
    ∃ entries, outcome (readAll reader paths) s = (.ok entries, s) := by
  unfold readAll
  induction paths with
  | nil => exact ⟨[], rfl⟩
  | cons path paths ih =>
    obtain ⟨x, hx⟩ := h path List.mem_cons_self
    obtain ⟨entries, hentries⟩ := ih fun other hother => h other (List.mem_cons_of_mem path hother)
    refine ⟨(path, x) :: entries, ?_⟩
    have hfirst : outcome (do pure (path, ← reader path)) s = (.ok (path, x), s) := by
      rw [outcome_bind_of_ok hx]
      rfl
    rw [List.mapM_cons, outcome_bind_of_ok hfirst, outcome_bind_of_ok hentries]
    rfl

theorem isSome_lookup_of_mem {α : Type} {entries : List (Text × α)} {entry : Text × α}
    (h : entry ∈ entries) :
    (entries.lookup entry.1).isSome = true := by
  rw [List.lookup_isSome_iff]
  exact ⟨entry, h, by simp⟩

/-- Every message class of the run can be read and has a package. -/
def Readable (s : Session) (classPaths : List Text) : Prop :=
  ∀ path ∈ classPaths, ∃ content package,
    s.Holds path content ∧ Declaration.package? content = some package

/-- Message classes that can be read give a listing: the lines of each class, with packages for all
of them. -/
theorem outcome_plan {s : Session} {classPaths : List Text} (h : Readable s classPaths) :
    ∃ lines packages,
      outcome (plan classPaths) s =
        ((Rule.build lines packages).mapError .rules |>.map (lines, ·), s) ∧
      ∀ file ∈ lines, (packages.lookup file.1).isSome = true ∧
        file.1 ∈ classPaths ∧ ∃ content, s.Holds file.1 content ∧
          file.2 = Declaration.declarationLines content := by
  have hlines : ∀ path ∈ classPaths, ∃ x, outcome (declarationLines path) s = (.ok x, s) := by
    intro path hpath
    obtain ⟨content, _, hholds, _⟩ := h path hpath
    exact ⟨_, by rw [declarationLines, outcome_bind_of_ok (outcome_readText_of_holds hholds)]; rfl⟩
  have hpackages : ∀ path ∈ classPaths, ∃ x, outcome (packageOf path) s = (.ok x, s) := by
    intro path hpath
    obtain ⟨content, package, hholds, hpackage⟩ := h path hpath
    refine ⟨package, ?_⟩
    rw [packageOf, outcome_bind_of_ok (outcome_readText_of_holds hholds), hpackage]
    rfl
  obtain ⟨lines, hreadLines⟩ := outcome_readAll_of_forall hlines
  obtain ⟨packages, hreadPackages⟩ := outcome_readAll_of_forall hpackages
  obtain ⟨hlinePaths, hline⟩ := of_readAll_eq_ok keeps_declarationLines hreadLines
  obtain ⟨hpackagePaths, _⟩ := of_readAll_eq_ok keeps_packageOf hreadPackages
  refine ⟨distinct lines, distinct packages, ?_, ?_⟩
  · rw [plan, outcome_bind_of_ok hreadLines, outcome_bind_of_ok hreadPackages, outcome_bind_pure,
      outcome_ofExcept]
  · intro file hfile
    have hread := (represents_distinct lines).mem_entries file hfile
    have hpath : file.1 ∈ classPaths := hlinePaths ▸ List.mem_map_of_mem hread
    obtain ⟨named, hnamed, hnamedPath⟩ := List.mem_map.mp (hpackagePaths ▸ hpath)
    obtain ⟨kept, hkept, hkeptPath⟩ := (represents_distinct packages).exists_kept named hnamed
    refine ⟨?_, hpath, of_declarationLines_eq_ok (hline file hread)⟩
    rw [← hnamedPath, ← hkeptPath]
    exact isSome_lookup_of_mem hkept

/-! ## Planning -/

/-- All lines that are selected in the message classes have the type as a word before their last
one. -/
def AllNamed (s : Session) (classPaths : List Text) : Prop :=
  ∀ path ∈ classPaths, ∀ content, s.Holds path content →
    ∀ line ∈ Declaration.declarationLines content, Declaration.NamesVariable line

/-- Planning succeeds, or a line without a variable is the reason why not. -/
theorem outcome_plan_cases {s : Session} {classPaths : List Text} (h : Readable s classPaths) :
    (AllNamed s classPaths ∧ ∃ planned, outcome (plan classPaths) s = (.ok planned, s)) ∨
      (¬ AllNamed s classPaths ∧ ∃ e, outcome (plan classPaths) s =
        (.error (.rules (.badLine e)), s)) := by
  obtain ⟨lines, packages, hplan, hfiles⟩ := outcome_plan h
  cases hbuild : Rule.build lines packages with
  | ok rules =>
    rw [hbuild] at hplan
    refine Or.inl ⟨?_, _, hplan⟩
    intro path hpath content hholds line hline
    obtain ⟨content', hholds', hplannable⟩ := of_plan_eq_ok hplan path hpath
    rw [hholds.content_eq hholds'] at hline
    exact Declaration.exists_variableName_iff.mp (hplannable.exists_name line hline)
  | error e =>
    rw [hbuild] at hplan
    obtain ⟨file, hfile, line, hline, hrule⟩ := Rule.of_build_eq_error hbuild
    obtain ⟨hpackage, hpath, content, hholds, hlines⟩ := hfiles file hfile
    obtain ⟨e', rfl, hname⟩ := Rule.of_ofLine_eq_error hpackage hrule
    refine Or.inr ⟨?_, e', hplan⟩
    intro hall
    have hnames := hall file.1 hpath content hholds line (hlines ▸ hline)
    obtain ⟨name, hok⟩ := Declaration.exists_variableName_iff.mpr hnames
    rw [hname] at hok
    cases hok

/-- **When the selected lines can be turned into rules.** A line that is selected has the type in
one of its words. It names a variable exactly if the type is itself a word of it and not the last
one, and it is refused for lack of the type exactly if the type is no word of it. Planning a run
over message classes that can be read and have packages succeeds exactly if all their selected lines
name variables, and otherwise fails because of such a line. -/
theorem plan_eq_ok_iff_named {s : Session} {classPaths : List Text} (h : Readable s classPaths) :
    (∀ content, ∀ line ∈ Declaration.declarationLines content,
      (∃ w ∈ Text.words line, Declaration.typeWord <:+: w) ∧
      ((∃ name, Declaration.variableName line = .ok name) ↔ Declaration.NamesVariable line) ∧
      (Declaration.variableName line = .error .noType ↔ Declaration.typeWord ∉ Text.words line)) ∧
    ((∃ planned, outcome (plan classPaths) s = (.ok planned, s)) ↔ AllNamed s classPaths) ∧
    (¬ AllNamed s classPaths → ∃ e, outcome (plan classPaths) s =
      (.error (.rules (.badLine e)), s)) := by
  refine ⟨?_, ?_, ?_⟩
  · intro content line hline
    have hselected := (List.mem_filter.mp hline).2
    exact ⟨Declaration.exists_word_of_isDeclaration hselected, Declaration.exists_variableName_iff,
      Declaration.variableName_eq_noType_iff⟩
  · rcases outcome_plan_cases h with ⟨hall, hok⟩ | ⟨hnot, e, herror⟩
    · exact iff_of_true hok hall
    · simp [herror, hnot]
  · intro hnot
    rcases outcome_plan_cases h with ⟨hall, _⟩ | ⟨_, herror⟩
    · exact absurd hall hnot
    · exact herror

/-- The message class of a small module, with a variable that has a type of the given name. -/
def classOfType (type : String) : Text :=
  "package p;\nclass M extends NLS \x7b\n  public static ".toList ++ type.toList ++
    " a;\n\x7d\n".toList

theorem holds_smallModule (content : Text) :
    (smallModule content).Holds "/w/M.java".toList content := ⟨by decide, rfl⟩

theorem plan_eq_ok_iff_named_small :
    Readable (smallModule (classOfType "final String")) ["/w/M.java".toList] ∧
    ∃ planned, outcome (plan ["/w/M.java".toList]) (smallModule (classOfType "final String")) =
      (.ok planned, smallModule (classOfType "final String")) := by
  have hread : Readable (smallModule (classOfType "final String")) ["/w/M.java".toList] := by
    intro path hpath
    rw [List.mem_singleton.mp hpath]
    exact ⟨_, "p".toList, holds_smallModule _, by decide +kernel⟩
  refine ⟨hread, (plan_eq_ok_iff_named hread).2.1.mpr ?_⟩
  intro path hpath content hholds
  rw [List.mem_singleton.mp hpath] at hholds
  rw [hholds.content_eq (holds_smallModule _)]
  decide +kernel

/-- A type that is written with its package is selected, but is no word of its own, so no rules can
be built. -/
theorem plan_fails_qualified_type :
    "  public static java.lang.String a;\n".toList ∈ Declaration.declarationLines
      (classOfType "java.lang.String") ∧
    Declaration.variableName "  public static java.lang.String a;\n".toList = .error .noType ∧
    (outcome (plan ["/w/M.java".toList]) (smallModule (classOfType "java.lang.String"))).1 =
      .error (.rules (.badLine .noType)) := by
  refine ⟨by decide +kernel, by decide +kernel, by decide +kernel⟩

end Conversion

end NlsBundle
