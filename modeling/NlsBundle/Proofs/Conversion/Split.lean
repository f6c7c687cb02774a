import Mathlib.Data.List.Perm.Basic
import NlsBundle.Proofs.Conversion.Plan
import NlsBundle.Proofs.FileTree.Change

/-!
# Work dealt out to lists

The source files are dealt out in turn to a number of lists, and the lists are worked on one after
the other or in a pool. Proved here:

* `deal_eq`, `flatten_deal_perm`: a list gets every so manieth item, and no item is lost or dealt
  twice;
* `convertInTurn_eq`, `outcome_convertPooled_of_ok`: work that does not fail is the work on all
  files of all lists;
* `outcome_convertFile`, `outcome_convertFiles`: a file is converted where it stands, and so are any
  number of different files;
* `convert_dealt_files`: so neither the number of processors nor the order of the files makes a
  difference to what is in the files in the end.
-/

namespace NlsBundle.Conversion

open NlsBundle.Action

variable {α β : Type}

/-! ## Dealing -/

/-- The items in the order of the work on `n` lists: for each `k` below `n` those at `k`, `k + n`,
`k + 2 * n` and so on. -/
def workOrder (n : Nat) (items : List α) : List α :=
  (List.range n).flatMap fun k => (List.range items.length).filterMap fun j => items[k + j * n]?

/-- The items of the `k`-th of `n` lists; `start` items have been dealt before. -/
def share (n k start : Nat) (items : List α) : List α :=
  (items.zipIdx start).filterMap fun (item, i) => if i % n = k then some item else none

theorem deal_eq_map_share (n : Nat) (items : List α) :
    deal n items = (List.range n).map fun k => share n k 0 items := rfl

theorem share_append (n k start : Nat) (xs ys : List α) :
    share n k start (xs ++ ys) = share n k start xs ++ share n k (start + xs.length) ys := by
  rw [share, List.zipIdx_append, List.filterMap_append]
  rfl

theorem share_add_self (n k start : Nat) (items : List α) :
    share n k (start + n) items = share n k start items := by
  unfold share
  induction items generalizing start with
  | nil => rfl
  | cons x items ih =>
    have hnext : start + n + 1 = start + 1 + n := by omega
    simp only [List.zipIdx_cons, List.filterMap_cons, Nat.add_mod_right, hnext, ih]

/-- In one round each list gets the item at its place. -/
theorem share_round {n k start : Nat} {items : List α} (h : start + items.length ≤ n)
    (hk : start ≤ k) (hkn : k < n) :
    share n k start items = items[k - start]?.toList := by
  unfold share
  induction items generalizing start with
  | nil => rfl
  | cons x items ih =>
    rw [List.length_cons] at h
    have hmod : start % n = start := Nat.mod_eq_of_lt (by omega)
    rw [List.zipIdx_cons, List.filterMap_cons]
    dsimp only
    rw [hmod]
    by_cases hstart : start = k
    · subst hstart
      have hrest : (items.zipIdx (start + 1)).filterMap
          (fun (item, i) => if i % n = start then some item else none) = [] := by
        rw [List.filterMap_eq_nil_iff]
        rintro ⟨y, i⟩ hy
        obtain ⟨hlow, hhigh, _⟩ := List.mem_zipIdx hy
        have hi : i % n = i := Nat.mod_eq_of_lt (by omega)
        simp only [hi, ite_eq_right_iff, reduceCtorEq, imp_false]
        omega
      simp [hrest]
    · have hnext : k - start = k - (start + 1) + 1 := by omega
      rw [if_neg hstart, ih (by omega) (by omega), hnext, List.getElem?_cons_succ]

/-- A list gets the item at its number, and then every `n`-th one. -/
theorem share_eq {n k : Nat} (hk : k < n) {bound : Nat} {items : List α}
    (h : items.length ≤ bound) :
    share n k 0 items = (List.range bound).filterMap fun j => items[k + j * n]? := by
  induction bound generalizing items with
  | zero =>
    rw [List.length_eq_zero_iff.mp (Nat.le_zero.mp h)]
    rfl
  | succ bound ih =>
    have hlen : (items.take n).length ≤ n := List.length_take_le n items
    have hfirst : share n k 0 (items.take n) = items[k]?.toList := by
      rw [share_round (by omega) (Nat.zero_le k) hk, Nat.sub_zero, List.getElem?_take_of_lt hk]
    have hrest :
        share n k (0 + (items.take n).length) (items.drop n) = share n k 0 (items.drop n) := by
      by_cases hall : items.length ≤ n
      · rw [List.drop_eq_nil_of_le hall]
        rfl
      · rw [List.length_take_of_le (by omega), share_add_self]
    have hdrop : (items.drop n).length ≤ bound := by
      rw [List.length_drop]
      omega
    have hshift : ∀ j, (items.drop n)[k + j * n]? = items[k + (j + 1) * n]? := by
      intro j
      rw [List.getElem?_drop, Nat.add_mul, Nat.one_mul]
      congr 1
      omega
    conv_lhs => rw [← List.take_append_drop n items]
    rw [share_append, hfirst, hrest, ih hdrop, List.range_succ_eq_map, List.filterMap_cons,
      List.filterMap_map]
    simp only [hshift, Nat.zero_mul, Nat.add_zero]
    cases items[k]? <;> rfl

/-- The lists, one after the other, are the items in the order of the work. -/
theorem flatten_deal (n : Nat) (items : List α) : (deal n items).flatten = workOrder n items := by
  rw [deal_eq_map_share, workOrder, List.flatMap_def]
  congr 1
  refine List.map_congr_left fun k hk => ?_
  exact share_eq (List.mem_range.mp hk) (Nat.le_refl _)

theorem flatMap_range_singleton {n j : Nat} (h : j < n) (x : α) :
    ((List.range n).flatMap fun k => if j = k then [x] else []) = [x] := by
  induction n with
  | zero => omega
  | succ n ih =>
    rw [List.range_succ, List.flatMap_append, List.flatMap_singleton]
    by_cases hj : j = n
    · have hbefore : ((List.range n).flatMap fun k => if j = k then [x] else []) = [] := by
        rw [List.flatMap_eq_nil_iff]
        intro k hk
        have hlt := List.mem_range.mp hk
        exact if_neg (by omega)
      rw [hbefore, if_pos hj, List.nil_append]
    · rw [ih (by omega), if_neg hj, List.append_nil]

/-- Where there is a list at all, every item is dealt exactly once. -/
theorem flatten_deal_perm {n : Nat} (hn : 0 < n) (items : List α) :
    (deal n items).flatten.Perm items := by
  have h : ∀ start, ((List.range n).flatMap fun k => share n k start items).Perm items := by
    induction items with
    | nil =>
      intro start
      simp [share]
    | cons x items ih =>
      intro start
      have hsplit : ∀ k, share n k start (x :: items) =
          (if start % n = k then [x] else []) ++ share n k (start + 1) items := by
        intro k
        rw [← List.singleton_append, share_append]
        congr 1
        by_cases hk : start % n = k <;> simp [share, hk]
      simp only [hsplit]
      refine (List.flatMap_append_perm _ _ _).symm.trans ?_
      rw [flatMap_range_singleton (Nat.mod_lt _ hn)]
      exact (ih (start + 1)).cons x
  rw [deal_eq_map_share, ← List.flatMap_def]
  exact h 0

/-! ## All files of all lists -/

theorem convertInTurn_eq (rules : List Rule) (lists : List (List Text)) :
    convertInTurn rules lists = convertFiles rules lists.flatten := by
  unfold convertInTurn convertFiles
  induction lists with
  | nil => rfl
  | cons list lists ih =>
    rw [List.flatten_cons, List.mapM_append, ← ih]
    simp [List.mapM_cons]

/-- Lists that are done in turn without a failure are done in the same way in a pool. -/
theorem outcome_convertPooled_of_ok {rules : List Rule} {lists : List (List Text)} {s s' : Session}
    {flags : List Bool} (h : outcome (convertInTurn rules lists) s = (.ok flags, s')) :
    outcome (convertPooled rules lists) s = (.ok flags, s') := by
  have hkeep : ∀ paths, Keeps (WritesAt fun _ => True) (convertFiles rules paths) :=
    fun paths => keeps_convertFiles rules fun _ _ => trivial
  obtain ⟨results, s'', htry, hgive, hleave, _⟩ := attempts_agree hkeep lists s
  rw [convertInTurn, outcome_bind_pure, hgive] at h
  rw [convertPooled, outcome_bind_of_ok htry, outcome_bind_pure, outcome_collect]
  cases hresults : collected results with
  | error e =>
    rw [hresults] at h
    cases h
  | ok ys =>
    rw [hresults, hleave ⟨ys, hresults⟩] at h
    exact h

theorem outcome_convertUsages {options : Options} {job : Job} {s s' : Session} {flags : List Bool}
    (h : outcome (convertFiles job.rules job.lists.flatten) s = (.ok flags, s')) :
    outcome (convertUsages options job) s = (.ok flags, s') := by
  rw [← convertInTurn_eq] at h
  unfold convertUsages
  split
  · exact h
  · exact outcome_convertPooled_of_ok h

/-! ## Different files -/

/-- The paths lead to different files, and the text of each of them can be converted. -/
structure Workload (rules : List Rule) (original converted : Text → Text) (s : Session)
    (paths : List Text) : Prop where
  distinct : (paths.map s.locate).Nodup
  holds : ∀ path ∈ paths, s.Holds path (original path)
  not_directory : ∀ path ∈ paths, s.tree.isDirectory (s.locate path) = false
  converts : ∀ path ∈ paths, Usage.convert (original path) rules = .ok (converted path)

/-- The files at the paths have been converted, one after the other, and those that change were
written. -/
structure Converted (original converted : Text → Text) (paths : List Text)
    (s s' : Session) : Prop where
  workingDirectory_eq : s'.workingDirectory = s.workingDirectory
  tree_eq : s'.tree =
    paths.foldl (fun tree path => tree.put (s.locate path) (.text (converted path))) s.tree
  writes_eq : s'.journal.writes = s.journal.writes ++
    (paths.filter fun path => converted path ≠ original path).map fun path =>
      ⟨path, s.locate path, converted path⟩

theorem outcome_writeText_of_ok {path content : Text} {s : Session} {tree : FileTree}
    (h : s.tree.write (s.locate path) (.text content) = .ok tree) :
    outcome (writeText path content) s = (.ok (), { s with
      tree
      journal := { s.journal with
        writes := s.journal.writes ++ [⟨path, s.locate path, content⟩] } }) := by
  unfold writeText
  rw [outcome_bind_of_ok (outcome_get s), h]
  rfl

section

variable {rules : List Rule} {original converted : Text → Text} {s s' : Session} {path : Text}
    {paths : List Text}

/-- One file is converted where it stands. -/
theorem outcome_convertFile (h : Workload rules original converted s [path]) :
    ∃ s', outcome (convertFile rules path) s = (.ok (decide (converted path ≠ original path)), s') ∧
      Converted original converted [path] s s' := by
  have hholds := h.holds path List.mem_cons_self
  unfold convertFile
  obtain ⟨messages, hsay⟩ := outcome_say_cases .info
    ("replacing Message variable access with ResourceBundle calls in ".toList ++ path) s
  rw [outcome_bind_of_ok (outcome_readText_of_holds hholds), outcome_bind_of_ok hsay,
    h.converts path List.mem_cons_self, outcome_bind_of_ok (outcome_ofExcept _ _ _)]
  dsimp only
  by_cases hchange : converted path = original path
  · rw [if_neg (not_not.mpr hchange)]
    refine ⟨_, rfl, rfl, ?_, ?_⟩
    · rw [List.foldl_cons, List.foldl_nil, hchange, FileTree.put_eq_self hholds.file_eq]
    · simp [hchange]
  · have hwrite := FileTree.write_eq_put (h.not_directory path List.mem_cons_self)
      (by rw [FileTree.isFile, hholds.file_eq]; rfl) (.text (converted path))
    rw [if_pos hchange, outcome_bind_of_ok
      (outcome_writeText_of_ok (s := { s with journal := { s.journal with messages } }) hwrite)]
    refine ⟨_, rfl, rfl, rfl, ?_⟩
    have hwritten : [path].filter (fun path => converted path ≠ original path) = [path] := by
      simp [hchange]
    rw [hwritten]
    rfl

theorem Converted.locate_eq (h : Converted original converted paths s s') :
    s'.locate = s.locate := by
  funext other
  rw [Session.locate, Session.locate, h.workingDirectory_eq]

theorem Workload.after (h : Workload rules original converted s (path :: paths))
    (hstep : Converted original converted [path] s s') :
    Workload rules original converted s' paths := by
  have hdistinct := h.distinct
  rw [List.map_cons, List.nodup_cons] at hdistinct
  have htree : s'.tree = s.tree.put (s.locate path) (.text (converted path)) := hstep.tree_eq
  refine ⟨?_, ?_, ?_, ?_⟩
  · rw [hstep.locate_eq]
    exact hdistinct.2
  · intro other hother
    have hholds := h.holds other (List.mem_cons_of_mem path hother)
    have hne : s.locate other ≠ s.locate path := by
      intro heq
      exact hdistinct.1 (heq ▸ List.mem_map_of_mem hother)
    refine ⟨hholds.path_ne_nil, ?_⟩
    rw [htree, hstep.locate_eq, FileTree.file?_put_of_ne hne, hholds.file_eq]
  · intro other hother
    rw [htree, hstep.locate_eq, FileTree.isDirectory_put]
    exact h.not_directory other (List.mem_cons_of_mem path hother)
  · exact fun other hother => h.converts other (List.mem_cons_of_mem path hother)

theorem Converted.cons {s₁ s₂ : Session} (hstep : Converted original converted [path] s s₁)
    (hrest : Converted original converted paths s₁ s₂) :
    Converted original converted (path :: paths) s s₂ := by
  refine ⟨hrest.workingDirectory_eq.trans hstep.workingDirectory_eq, ?_, ?_⟩
  · rw [hrest.tree_eq, hstep.tree_eq]
    simp only [hstep.locate_eq, List.foldl_cons, List.foldl_nil]
  · rw [hrest.writes_eq, hstep.writes_eq]
    simp only [hstep.locate_eq]
    rw [List.append_assoc, ← List.map_append, ← List.filter_append, List.singleton_append]

/-- Different files are converted one after the other, each as if it were the only one. -/
theorem outcome_convertFiles (h : Workload rules original converted s paths) :
    ∃ s', outcome (convertFiles rules paths) s =
        (.ok (paths.map fun path => decide (converted path ≠ original path)), s') ∧
      Converted original converted paths s s' := by
  unfold convertFiles
  induction paths generalizing s with
  | nil => exact ⟨s, rfl, rfl, rfl, by simp⟩
  | cons path paths ih =>
    have hfirst : Workload rules original converted s [path] := by
      refine ⟨by simp, ?_, ?_, ?_⟩
      · simpa using h.holds path List.mem_cons_self
      · simpa using h.not_directory path List.mem_cons_self
      · simpa using h.converts path List.mem_cons_self
    obtain ⟨s₁, hpath, hstep⟩ := outcome_convertFile hfirst
    obtain ⟨s₂, hpaths, hrest⟩ := ih (h.after hstep)
    refine ⟨s₂, ?_, hstep.cons hrest⟩
    rw [List.mapM_cons, outcome_bind_of_ok hpath, outcome_bind_of_ok hpaths]
    rfl

theorem Workload.perm {order : List Text} (h : Workload rules original converted s paths)
    (hperm : order.Perm paths) :
    Workload rules original converted s order where
  distinct := (hperm.map s.locate).nodup_iff.mpr h.distinct
  holds path hpath := h.holds path (hperm.mem_iff.mp hpath)
  not_directory path hpath := h.not_directory path (hperm.mem_iff.mp hpath)
  converts path hpath := h.converts path (hperm.mem_iff.mp hpath)

/-- **The work split loses no file and repeats none, and makes no difference to the files.** Where
the paths lead to different files whose texts can be converted, one and the same tree comes out for
every number of processors, every order of the paths and both ways to work: each of the files holds
its converted text, and all others are as before. A file is written exactly if it changes, and once,
in the order of the work, in which the flags come too. -/
theorem convert_dealt_files (h : Workload rules original converted s paths) :
    ∃ tree : FileTree,
      (∀ path ∈ paths, tree.file? (s.locate path) = some (.text (converted path))) ∧
      (∀ place, place ∉ paths.map s.locate → tree.file? place = s.tree.file? place) ∧
      tree.directories = s.tree.directories ∧
      ∀ (processors : Nat) (order : List Text) (options : Options) (job : Job), 1 ≤ processors →
        order.Perm paths →
        job.rules = rules → job.lists = deal (listCount processors) order →
        job.lists.flatten.Perm paths ∧
        ∃ s', outcome (convertUsages options job) s =
            (.ok ((workOrder (6 * processors) order).map fun path =>
              decide (converted path ≠ original path)), s') ∧
          s'.tree = tree ∧
          s'.journal.writes = s.journal.writes ++
            ((workOrder (6 * processors) order).filter fun path =>
              converted path ≠ original path).map
              fun path => ⟨path, s.locate path, converted path⟩ := by
  have hfile : ∀ path ∈ paths, s.tree.isFile (s.locate path) = true := by
    intro path hpath
    rw [FileTree.isFile, (h.holds path hpath).file_eq]
    rfl
  refine ⟨paths.foldl (fun tree path => tree.put (s.locate path) (.text (converted path))) s.tree,
    fun path hpath => FileTree.file?_foldl_put_of_mem h.distinct hpath _,
    fun place hplace => FileTree.file?_foldl_put_of_notMem hplace _,
    FileTree.directories_foldl_put _ _ _ _, ?_⟩
  rintro processors order options ⟨classPaths, lines, _, _⟩ hprocessors hperm rfl rfl
  have hcount : listCount processors = 6 * processors := by
    rw [listCount]
    omega
  rw [hcount]
  dsimp only
  have hwork : (deal (6 * processors) order).flatten.Perm paths :=
    (flatten_deal_perm (by omega) order).trans hperm
  obtain ⟨s', hok, hconverted⟩ := outcome_convertFiles (h.perm hwork)
  refine ⟨hwork, s', ?_, ?_, ?_⟩
  · rw [← flatten_deal]
    exact outcome_convertUsages hok
  · rw [hconverted.tree_eq]
    exact (FileTree.foldl_put_perm hwork.symm s.tree h.distinct hfile).symm
  · rw [← flatten_deal]
    exact hconverted.writes_eq

end

/-- The names of seven files, so that one of six lists gets two of them. -/
def sevenNames : List Text := ["a", "b", "c", "d", "e", "f", "g"].map String.toList

/-- A use of a variable in the first and the last of the files, and none in the others. -/
def sevenTexts (use : String) (path : Text) : Text :=
  if path = "a".toList ∨ path = "g".toList then use.toList else "x".toList

def sevenFiles : Session where
  tree := .ofListing
    (sevenNames.map fun path => ("/w/".toList ++ path, .text (sevenTexts "M.v;" path))) []
  workingDirectory := "/w".toList
  processors := 1
  answers := []
  threshold := .warning
  journal := .empty

theorem convert_dealt_files_seven :
    Workload [.ofVariable "M".toList "v".toList "p".toList] (sevenTexts "M.v;")
      (sevenTexts "M.getString(\"v\");") sevenFiles sevenNames ∧
    ∃ s',
      outcome (convertUsages ⟨[], false⟩
          ⟨[], [], [.ofVariable "M".toList "v".toList "p".toList],
            deal (listCount 1) sevenNames⟩) sevenFiles =
        (.ok [true, true, false, false, false, false, false], s') ∧
      s'.tree.file? "/w/g".toList = some (.text "M.getString(\"v\");".toList) ∧
      s'.journal.writes.map Write.given = ["a".toList, "g".toList] := by
  have hwork : Workload [.ofVariable "M".toList "v".toList "p".toList] (sevenTexts "M.v;")
      (sevenTexts "M.getString(\"v\");") sevenFiles sevenNames :=
    ⟨by decide +kernel,
      fun path hpath => ⟨by rintro rfl; revert hpath; decide, by revert path; decide +kernel⟩,
      by decide +kernel, by decide +kernel⟩
  obtain ⟨tree, hfiles, _, _, hruns⟩ := convert_dealt_files hwork
  obtain ⟨_, s', hok, htree, hwrites⟩ :=
    hruns 1 sevenNames ⟨[], false⟩ ⟨[], [], _, _⟩ (by decide) (List.Perm.refl _) rfl rfl
  have horder : workOrder (6 * 1) sevenNames =
      ["a", "g", "b", "c", "d", "e", "f"].map String.toList := by decide
  rw [horder] at hok hwrites
  refine ⟨hwork, s', hok, ?_, ?_⟩
  · rw [htree]
    exact hfiles "g".toList (by decide)
  · rw [hwrites]
    decide

end NlsBundle.Conversion
