import NlsBundle.Proofs.Conversion.Pool
import NlsBundle.Proofs.Rule.Build
import NlsBundle.Proofs.Search.Answer

/-!
# Planning a run

Before a run writes anything it knows all that it will need: the message classes with their
declarations, the rules, and the source files with usages. Proved here:

* `keeps_prepare`: planning writes nothing, whether it succeeds or not;
* `of_plan_eq_ok`: planning succeeds only if every message class can be read, has a package and
  declares variables in all its declaration lines;
* `of_prepare_eq_ok`: and only if every search program answers; then the plan is about the files
  that were found;
* `Unplannable.not_prepared`: so planning fails where any of this is not the case.
-/

namespace NlsBundle.Conversion

open NlsBundle.Action

/-! ## Phases of a run -/

/-- What a run knows when it begins to write. -/
structure Job where
  classPaths : List Text
  /-- the declaration lines of each message class -/
  lines : List (Text × List Text)
  rules : List Rule
  /-- the work lists of source files -/
  lists : List (List Text)

/-- The first phase: searching and reading. -/
def prepare (options : Options) : Action Job := do
  let modules := options.modulePaths.map (← get).locate
  let classPaths := (← modules.mapM Search.messageClasses).flatten
  let (lines, rules) ← plan classPaths
  let sources := (← modules.mapM fun m => Search.sourceFiles m classPaths).flatten
  pure ⟨classPaths, lines, rules, deal (listCount (← get).processors) sources⟩

/-- The second phase: the usages in source files. -/
def convertUsages (options : Options) (job : Job) : Action (List Bool) :=
  if options.singleProcess then convertInTurn job.rules job.lists
  else convertPooled job.rules job.lists

/-- The third phase: the message classes. -/
def adaptClasses (job : Job) : Action (List Bool) :=
  job.classPaths.mapM fun path => adaptClass path ((job.lines.lookup path).getD [])

/-- A run is made of the three phases. -/
theorem run_eq_phases (options : Options) :
    run options = (do
      let job ← prepare options
      let usages ← convertUsages options job
      let classes ← adaptClasses job
      pure ⟨usages, classes⟩) := by
  cases hmode : options.singleProcess <;>
    simp [run, prepare, convertUsages, adaptClasses, hmode]

/-! ## Reading the message classes -/

theorem keeps_declarationLines {R : Session → Session → Prop} [IsPreorder Session R] (path : Text) :
    Keeps R (declarationLines path) :=
  Keeps.bind (keeps_readText path) fun _ => Keeps.pure _

theorem keeps_packageOf {R : Session → Session → Prop} [IsPreorder Session R] (path : Text) :
    Keeps R (packageOf path) := by
  refine Keeps.bind (keeps_readText path) fun content => ?_
  cases Declaration.package? content with
  | none => exact Keeps.throw _
  | some package => exact Keeps.pure _

theorem keeps_readAll {R : Session → Session → Prop} [IsPreorder Session R] {α : Type}
    {reader : Text → Action α} (hreader : ∀ path, Keeps R (reader path)) (paths : List Text) :
    Keeps R (readAll reader paths) :=
  Keeps.mapM fun path _ => Keeps.bind (hreader path) fun _ => Keeps.pure _

/-- Where all paths are read, there is an entry for each of them with what its file gives. -/
theorem of_readAll_eq_ok {α : Type} {reader : Text → Action α}
    (hreader : ∀ path, Keeps Eq (reader path)) {paths : List Text} {s s' : Session}
    {entries : List (Text × α)} (h : outcome (readAll reader paths) s = (.ok entries, s')) :
    entries.map Prod.fst = paths ∧
      ∀ entry ∈ entries, outcome (reader entry.1) s = (.ok entry.2, s) := by
  induction paths generalizing entries s with
  | nil =>
    cases h
    simp
  | cons path paths ih =>
    rw [readAll, List.mapM_cons] at h
    obtain ⟨entry, s₁, hfirst, h⟩ := of_outcome_bind_eq_ok h
    obtain ⟨others, s₂, hothers, h⟩ := of_outcome_bind_eq_ok h
    cases h
    obtain ⟨x, s₃, hread, hentry⟩ := of_outcome_bind_eq_ok hfirst
    cases hentry
    have hsame : s = (outcome (reader path) s).2 := hreader path s
    rw [hread] at hsame
    cases hsame
    obtain ⟨hpaths, hgive⟩ := ih hothers
    refine ⟨by rw [List.map_cons, hpaths], ?_⟩
    intro entry hentry
    rcases List.mem_cons.mp hentry with rfl | hentry
    · exact hread
    · exact hgive entry hentry

section

variable {α : Type} {kept entries : List (Text × α)}

/-- Some of the entries, with one for each path. -/
structure Represents (kept entries : List (Text × α)) : Prop where
  mem_entries : ∀ entry ∈ kept, entry ∈ entries
  exists_kept : ∀ entry ∈ entries, ∃ k ∈ kept, k.1 = entry.1

theorem Represents.addNew (h : Represents kept entries) (x : Text × α) :
    Represents (addNew kept x) (entries ++ [x]) := by
  unfold Conversion.addNew
  split
  · rename_i hx
    refine ⟨fun entry hentry => List.mem_append_left _ (h.mem_entries entry hentry), ?_⟩
    intro entry hentry
    rcases List.mem_append.mp hentry with hentry | hentry
    · exact h.exists_kept entry hentry
    · -- the path of this entry has been met before
      obtain rfl := List.mem_singleton.mp hentry
      obtain ⟨y, hy⟩ := Option.isSome_iff_exists.mp hx
      obtain ⟨l, r, hkept, _⟩ := List.lookup_eq_some_iff.mp hy
      exact ⟨(entry.1, y), by simp [hkept], rfl⟩
  · refine ⟨fun entry hentry => ?_, fun entry hentry => ?_⟩
    · rcases List.mem_append.mp hentry with hentry | hentry
      · exact List.mem_append_left _ (h.mem_entries entry hentry)
      · exact List.mem_append_right _ hentry
    · rcases List.mem_append.mp hentry with hentry | hentry
      · obtain ⟨k, hk, hpath⟩ := h.exists_kept entry hentry
        exact ⟨k, List.mem_append_left _ hk, hpath⟩
      · exact ⟨entry, List.mem_append_right _ hentry, rfl⟩

theorem Represents.foldl_addNew (h : Represents kept entries) (rest : List (Text × α)) :
    Represents (rest.foldl Conversion.addNew kept) (entries ++ rest) := by
  induction rest generalizing kept entries with
  | nil => rwa [List.foldl_nil, List.append_nil]
  | cons x rest ih =>
    have hrest := ih (h.addNew x)
    rwa [List.append_assoc, List.singleton_append] at hrest

/-- Of several entries for one path one is kept. -/
theorem represents_distinct (entries : List (Text × α)) : Represents (distinct entries) entries :=
  Represents.foldl_addNew ⟨fun _ h => h, fun _ h => absurd h List.not_mem_nil⟩ entries

end

/-- A message class from which rules can be built. -/
structure Plannable (content : Text) : Prop where
  exists_package : ∃ package, Declaration.package? content = some package
  exists_name :
    ∀ line ∈ Declaration.declarationLines content, ∃ name, Declaration.variableName line = .ok name

theorem keeps_plan {R : Session → Session → Prop} [IsPreorder Session R] (classPaths : List Text) :
    Keeps R (plan classPaths) := by
  refine Keeps.bind (keeps_readAll keeps_declarationLines classPaths) fun lines => ?_
  refine Keeps.bind (keeps_readAll keeps_packageOf classPaths) fun packages => ?_
  exact Keeps.bind (Keeps.ofExcept _ _) fun rules => Keeps.pure _

theorem of_declarationLines_eq_ok {path : Text} {lines : List Text} {s s' : Session}
    (h : outcome (declarationLines path) s = (.ok lines, s')) :
    ∃ content, s.Holds path content ∧ lines = Declaration.declarationLines content := by
  rcases outcome_readText_cases path s with ⟨content, hholds, hread⟩ | ⟨_, e, hread⟩
  · rw [declarationLines, outcome_bind_of_ok hread] at h
    cases h
    exact ⟨content, hholds, rfl⟩
  · rw [declarationLines, outcome_bind_of_error hread] at h
    cases h

theorem of_packageOf_eq_ok {path package : Text} {s s' : Session}
    (h : outcome (packageOf path) s = (.ok package, s')) :
    ∃ content, s.Holds path content ∧ Declaration.package? content = some package := by
  rcases outcome_readText_cases path s with ⟨content, hholds, hread⟩ | ⟨_, e, hread⟩
  · rw [packageOf, outcome_bind_of_ok hread] at h
    cases hpackage : Declaration.package? content with
    | none =>
      rw [hpackage] at h
      cases h
    | some found =>
      rw [hpackage] at h
      cases h
      exact ⟨content, hholds, hpackage⟩
  · rw [packageOf, outcome_bind_of_error hread] at h
    cases h

/-- Planning succeeds only if rules can be built from every message class. -/
theorem of_plan_eq_ok {classPaths : List Text} {s s' : Session}
    {planned : List (Text × List Text) × List Rule}
    (h : outcome (plan classPaths) s = (.ok planned, s')) :
    ∀ path ∈ classPaths, ∃ content, s.Holds path content ∧ Plannable content := by
  rw [plan] at h
  obtain ⟨lines, s₁, hlines, h⟩ := of_outcome_bind_eq_ok h
  have hsame : Eq s s₁ := by
    have hkeep := keeps_readAll (R := Eq) keeps_declarationLines classPaths s
    rwa [hlines] at hkeep
  subst hsame
  obtain ⟨packages, s₂, hpackages, h⟩ := of_outcome_bind_eq_ok h
  obtain ⟨rules, s₃, hrules, _⟩ := of_outcome_bind_eq_ok h
  obtain ⟨hlinePaths, hline⟩ := of_readAll_eq_ok keeps_declarationLines hlines
  obtain ⟨hpackagePaths, hpackage⟩ := of_readAll_eq_ok keeps_packageOf hpackages
  intro path hpath
  -- the entry that is kept for the path tells what its file declares, and so do the rules built
  -- from it
  obtain ⟨entry, hentry, rfl⟩ := List.mem_map.mp (hlinePaths ▸ hpath)
  obtain ⟨kept, hkept, hsame⟩ := (represents_distinct lines).exists_kept entry hentry
  rw [← hsame] at hpath ⊢
  obtain ⟨content, hholds, hdeclared⟩ :=
    of_declarationLines_eq_ok (hline kept ((represents_distinct lines).mem_entries kept hkept))
  refine ⟨content, hholds, ?_, ?_⟩
  · obtain ⟨named, hnamed, hpath'⟩ := List.mem_map.mp (hpackagePaths ▸ hpath)
    obtain ⟨content', hholds', hpackage'⟩ := of_packageOf_eq_ok (hpackage named hnamed)
    rw [hpath'] at hholds'
    rw [hholds.content_eq hholds']
    exact ⟨_, hpackage'⟩
  · intro line hline'
    rw [← hdeclared] at hline'
    exact Rule.exists_variableName_of_build (of_outcome_ofExcept_eq_ok hrules) hkept hline'

/-! ## The files of a run -/

/-- The words printed by the searches for message classes. -/
def foundClasses (options : Options) (s : Session) : List Text :=
  (s.answers.take options.modulePaths.length).flatMap Answer.printed

/-- The words printed by the searches for source files, which come after the others. -/
def foundSources (options : Options) (s : Session) : List Text :=
  ((s.answers.drop options.modulePaths.length).take options.modulePaths.length).flatMap
    Answer.printed

theorem mem_of_mem_deal {α : Type} {n : Nat} {items list : List α} {item : α}
    (hlist : list ∈ deal n items) (hitem : item ∈ list) : item ∈ items := by
  obtain ⟨k, _, rfl⟩ := List.mem_map.mp hlist
  obtain ⟨⟨x, i⟩, hx, hsome⟩ := List.mem_filterMap.mp hitem
  dsimp only at hsome
  split at hsome
  · cases hsome
    exact List.fst_mem_of_mem_zipIdx hx
  · cases hsome

theorem keeps_prepare (options : Options) : Keeps Untouched (prepare options) := by
  refine Keeps.bind Keeps.get fun start => ?_
  refine Keeps.bind (Search.keeps_mapM_asks Search.asks_messageClasses _) fun classes => ?_
  refine Keeps.bind (keeps_plan _) fun planned => ?_
  refine Keeps.bind (Search.keeps_mapM_asks (fun m => Search.asks_sourceFiles m _) _)
    fun sources => ?_
  exact Keeps.bind Keeps.get fun s => Keeps.pure _

/-- A run that has been planned knows the files that were found, and could read the message
classes. -/
theorem of_prepare_eq_ok {options : Options} {s s' : Session} {job : Job}
    (h : outcome (prepare options) s = (.ok job, s')) :
    job.classPaths = foundClasses options s ∧
      (∀ list ∈ job.lists, ∀ path ∈ list, path ∈ foundSources options s ∧
        path ∉ foundClasses options s) ∧
      (∀ answer ∈ s.answers.take (2 * options.modulePaths.length), answer.Usable) ∧
      ∀ path ∈ foundClasses options s, ∃ content, s.Holds path content ∧ Plannable content := by
  rw [prepare, outcome_bind_of_ok (outcome_get s)] at h
  obtain ⟨classes, s₁, hclasses, h⟩ := of_outcome_bind_eq_ok h
  obtain ⟨planned, s₂, hplan, h⟩ := of_outcome_bind_eq_ok h
  obtain ⟨sources, s₃, hsources, h⟩ := of_outcome_bind_eq_ok h
  cases h
  have huntouched : Untouched s s₁ := by
    have hkeep :=
      Search.keeps_mapM_asks Search.asks_messageClasses (options.modulePaths.map s.locate) s
    rwa [hclasses] at hkeep
  have hsame : s₁ = s₂ := by
    have hkeep := keeps_plan (R := Eq) classes.flatten s₁
    rwa [hplan] at hkeep
  subst hsame
  obtain ⟨hanswers, husable, hfound⟩ := Search.of_mapM_asks Search.asks_messageClasses hclasses
  obtain ⟨_, husable', hfound'⟩ :=
    Search.of_mapM_asks (fun m => Search.asks_sourceFiles m _) hsources
  rw [List.length_map] at hanswers husable hfound husable' hfound'
  have hclassPaths : classes.flatten = foundClasses options s := by
    rw [hfound]
    exact List.filter_eq_self.mpr (by simp)
  rw [hclassPaths] at hplan hfound'
  refine ⟨hclassPaths, ?_, ?_, ?_⟩
  · intro list hlist path hpath
    have hsource := mem_of_mem_deal hlist hpath
    rw [hfound', hanswers] at hsource
    obtain ⟨hprinted, hnew⟩ := List.mem_filter.mp hsource
    exact ⟨hprinted, by simpa using hnew⟩
  · intro answer hanswer
    rw [Nat.two_mul, List.take_add] at hanswer
    rcases List.mem_append.mp hanswer with hanswer | hanswer
    · exact husable answer hanswer
    · exact husable' answer (hanswers ▸ hanswer)
  · intro path hpath
    obtain ⟨content, hholds, hplannable⟩ := of_plan_eq_ok hplan path hpath
    exact ⟨content, (huntouched.holds_iff path content).mp hholds, hplannable⟩

/-! ## What cannot be planned -/

/-- A run that cannot be planned: a search program is missing or prints what is no text, or a
message class that was found is missing, is no text, has no line with a package, or has a
declaration line without a variable. -/
inductive Unplannable (options : Options) (s : Session) : Prop
  | noProgram (h : .noProgram ∈ s.answers.take (2 * options.modulePaths.length))
  | undecodableAnswer (bytes : List UInt8)
      (h : .output (.bytes bytes) ∈ s.answers.take (2 * options.modulePaths.length))
  | missingClass (path : Text) (hfound : path ∈ foundClasses options s)
      (h : s.tree.file? (s.locate path) = none)
  | undecodableClass (path : Text) (bytes : List UInt8) (hfound : path ∈ foundClasses options s)
      (h : s.tree.file? (s.locate path) = some (.bytes bytes))
  | noPackage (path content : Text) (hfound : path ∈ foundClasses options s)
      (hcontent : s.tree.file? (s.locate path) = some (.text content))
      (h : ∀ line ∈ Text.lines content, ¬ "package ".toList <+: line)
  | badDeclaration (path content line : Text) (e : Declaration.Error)
      (hfound : path ∈ foundClasses options s)
      (hcontent : s.tree.file? (s.locate path) = some (.text content))
      (hline : line ∈ Declaration.declarationLines content)
        (h : Declaration.variableName line = .error e)

theorem package?_eq_none {content : Text}
    (h : ∀ line ∈ Text.lines content, ¬ "package ".toList <+: line) :
    Declaration.package? content = none := by
  rw [Declaration.package?, List.findSome?_eq_none_iff]
  intro line hline
  rw [Declaration.packageOfLine?, Text.after?_eq_none_iff.mpr (h line hline)]
  rfl

theorem Unplannable.not_prepared {options : Options} {s s' : Session} {job : Job}
    (h : Unplannable options s) :
    outcome (prepare options) s ≠ (.ok job, s') := by
  intro hprepare
  obtain ⟨_, _, husable, hclasses⟩ := of_prepare_eq_ok hprepare
  cases h with
  | noProgram h => exact (husable _ h).1 rfl
  | undecodableAnswer bytes h => exact (husable _ h).2 bytes rfl
  | missingClass path hfound h =>
    obtain ⟨content, hholds, _⟩ := hclasses path hfound
    rw [hholds.file_eq] at h
    cases h
  | undecodableClass path bytes hfound h =>
    obtain ⟨content, hholds, _⟩ := hclasses path hfound
    rw [hholds.file_eq] at h
    cases h
  | noPackage path content hfound hcontent h =>
    obtain ⟨content', hholds, hplannable⟩ := hclasses path hfound
    rw [hholds.file_eq] at hcontent
    cases hcontent
    obtain ⟨package, hpackage⟩ := hplannable.exists_package
    rw [package?_eq_none h] at hpackage
    cases hpackage
  | badDeclaration path content line e hfound hcontent hline h =>
    obtain ⟨content', hholds, hplannable⟩ := hclasses path hfound
    rw [hholds.file_eq] at hcontent
    cases hcontent
    obtain ⟨name, hname⟩ := hplannable.exists_name line hline
    rw [h] at hname
    cases hname

end NlsBundle.Conversion
