import NlsBundle.Proofs.FileTree.Change
import NlsBundle.Proofs.Search.Answer

/-!
# Actions that only add

A part of a run that writes no file twice and none that was there adds to a session: files,
directories, calls and printed text. Proved here:

* `calls_append`: the calls of two parts, with the answers they got, are those of the first and then
  those of the second;
* `Adds.append`: what two parts add, they add together;
* `Adds.file_eq_of_isFile`, `Adds.contains_of_contains`: what was there before is still there, as it
  was;
* `keeps_makeDirectories`, `adds_called`, `adds_write`: making directories, calling a program and
  writing a new file add.
-/

namespace NlsBundle

/-! ## Calls and their answers -/

/-- The calls between two sessions, each with the answer that it got. -/
def Session.calls (s s' : Session) : List (Command × Answer) :=
  (s'.journal.commands.drop s.journal.commands.length).zip s.answers

theorem zip_append_left {α β : Type} (xs ys : List α) (zs : List β) :
    (xs ++ ys).zip zs = xs.zip zs ++ ys.zip (zs.drop xs.length) := by
  induction xs generalizing zs with
  | nil => simp
  | cons x xs ih =>
    cases zs with
    | nil => simp
    | cons z zs => simp [ih]

namespace Action

variable {s t u : Session}

/-- Every call is on record, and has used up one answer. -/
def Records (s s' : Session) : Prop :=
  ∃ commands, s'.journal.commands = s.journal.commands ++ commands ∧
    s'.answers = s.answers.drop commands.length

theorem Records.trans (h : Records s t) (h' : Records t u) : Records s u := by
  obtain ⟨first, hfirst, hanswers⟩ := h
  obtain ⟨second, hsecond, hanswers'⟩ := h'
  refine ⟨first ++ second, ?_, ?_⟩
  · rw [hsecond, hfirst, List.append_assoc]
  · rw [hanswers', hanswers, List.drop_drop, List.length_append]

theorem calls_append (h : Records s t) (h' : Records t u) : s.calls u = s.calls t ++ t.calls u := by
  obtain ⟨first, hfirst, hanswers⟩ := h
  obtain ⟨second, hsecond, _⟩ := h'
  unfold Session.calls
  rw [hsecond, List.drop_left, hfirst, List.append_assoc, List.drop_left, List.drop_left, hanswers,
    zip_append_left]

theorem records_called (s : Session) (command : Command) : Records s (called s command) :=
  ⟨[command], rfl, (List.drop_one).symm⟩

theorem mem_calls_called {answer : Answer} (h : answer ∈ s.answers.head?) (command : Command) :
    (command, answer) ∈ s.calls (called s command) := by
  obtain ⟨rest, hrest⟩ := List.head?_eq_some_iff.mp h
  simp [Session.calls, called, hrest]

/-! ## Additions -/

/-- From one session to another some files are written, none of which was there and none twice, and
some text is printed. All other files are as before, and all directories are still there. -/
structure Adds (writes : List Write) (printed : Text) (s s' : Session) : Prop where
  workingDirectory_eq : s'.workingDirectory = s.workingDirectory
  shell_eq : s'.shell = s.shell
  isDirectory_of_isDirectory : ∀ path, s.tree.isDirectory path = true →
    s'.tree.isDirectory path = true
  writes_eq : s'.journal.writes = s.journal.writes ++ writes
  nodup : (writes.map Write.place).Nodup
  new : ∀ w ∈ writes, s.tree.contains w.place = false
  file_eq_of_mem : ∀ w ∈ writes, s'.tree.file? w.place = some (.text w.content)
  file_eq_of_notMem : ∀ path, path ∉ writes.map Write.place → s'.tree.file? path = s.tree.file? path
  printed_eq : s'.journal.printed = s.journal.printed ++ printed
  records : Records s s'

namespace Adds

variable {ws ws' : List Write} {out out' : Text}

theorem refl (s : Session) : Adds [] [] s s where
  workingDirectory_eq := rfl
  shell_eq := rfl
  isDirectory_of_isDirectory _ h := h
  writes_eq := (List.append_nil _).symm
  nodup := List.nodup_nil
  new _ h := absurd h List.not_mem_nil
  file_eq_of_mem _ h := absurd h List.not_mem_nil
  file_eq_of_notMem _ _ := rfl
  printed_eq := (List.append_nil _).symm
  records := ⟨[], (List.append_nil _).symm, rfl⟩

theorem locate_eq (h : Adds ws out s t) (path : Text) : t.locate path = s.locate path := by
  rw [Session.locate, Session.locate, h.workingDirectory_eq]

theorem notMem_of_contains (h : Adds ws out s t) {path : Text}
    (hpath : s.tree.contains path = true) :
    path ∉ ws.map Write.place := by
  intro hmem
  obtain ⟨w, hw, rfl⟩ := List.mem_map.mp hmem
  rw [h.new w hw] at hpath
  cases hpath

theorem file_eq_of_isFile (h : Adds ws out s t) {path : Text} (hpath : s.tree.isFile path = true) :
    t.tree.file? path = s.tree.file? path :=
  h.file_eq_of_notMem path (h.notMem_of_contains (by simp [FileTree.contains, hpath]))

theorem contains_of_contains (h : Adds ws out s t) {path : Text}
    (hpath : s.tree.contains path = true) :
    t.tree.contains path = true := by
  rw [FileTree.contains, Bool.or_eq_true] at hpath ⊢
  rcases hpath with hfile | hdirectory
  · exact Or.inl (by rwa [FileTree.isFile, h.file_eq_of_isFile hfile])
  · exact Or.inr (h.isDirectory_of_isDirectory path hdirectory)

theorem append (h : Adds ws out s t) (h' : Adds ws' out' t u) :
    Adds (ws ++ ws') (out ++ out') s u := by
  -- what the first part has written is there when the second begins, and so is not written again
  have hfirst : ∀ w ∈ ws, w.place ∉ ws'.map Write.place := by
    intro w hw
    refine h'.notMem_of_contains ?_
    simp [FileTree.contains, FileTree.isFile, h.file_eq_of_mem w hw]
  refine ⟨h'.workingDirectory_eq.trans h.workingDirectory_eq, h'.shell_eq.trans h.shell_eq,
    ?_, ?_, ?_, ?_, ?_, ?_, ?_, h.records.trans h'.records⟩
  · exact fun path hpath =>
      h'.isDirectory_of_isDirectory path (h.isDirectory_of_isDirectory path hpath)
  · rw [h'.writes_eq, h.writes_eq, List.append_assoc]
  · rw [List.map_append, List.nodup_append]
    refine ⟨h.nodup, h'.nodup, ?_⟩
    rintro place hplace other hother rfl
    obtain ⟨w, hw, rfl⟩ := List.mem_map.mp hplace
    exact hfirst w hw hother
  · intro w hw
    rcases List.mem_append.mp hw with hw | hw
    · exact h.new w hw
    · refine Bool.eq_false_iff.mpr fun hthere => ?_
      exact h'.notMem_of_contains (h.contains_of_contains hthere) (List.mem_map_of_mem hw)
  · intro w hw
    rcases List.mem_append.mp hw with hw | hw
    · rw [h'.file_eq_of_notMem _ (hfirst w hw), h.file_eq_of_mem w hw]
    · exact h'.file_eq_of_mem w hw
  · intro path hpath
    rw [List.map_append, List.mem_append, not_or] at hpath
    rw [h'.file_eq_of_notMem path hpath.2, h.file_eq_of_notMem path hpath.1]
  · rw [h'.printed_eq, h.printed_eq, List.append_assoc]

end Adds

instance : IsPreorder Session (Adds [] []) where
  refl := Adds.refl
  trans _ _ _ h h' := h.append h'

/-! ## Steps that write nothing -/

theorem adds_messages (s : Session) (messages : List (Level × Text)) :
    Adds [] [] s { s with journal := { s.journal with messages } } :=
  { Adds.refl s with }

theorem adds_printed (s : Session) (text : Text) :
    Adds [] text s { s with journal := { s.journal with printed := s.journal.printed ++ text } } :=
  { Adds.refl s with printed_eq := rfl }

/-- A search adds nothing but its call. -/
theorem adds_called (s : Session) (words : List Text) : Adds [] [] s (called s (.words words)) :=
  { Adds.refl s with records := records_called s _ }

theorem outcome_pathExists (path : Text) (s : Session) :
    outcome (pathExists path) s = (.ok (path ≠ [] && s.tree.contains (s.locate path)), s) := rfl

theorem keeps_pathExists (path : Text) : Keeps (Adds [] []) (pathExists path) := Adds.refl

theorem adds_addDirectory {tree : FileTree} {path : Text} (h : s.tree.addDirectory path = .ok tree)
    (createdDirectories : List Text) :
    Adds [] [] s { s with tree, journal := { s.journal with createdDirectories } } := by
  unfold FileTree.addDirectory at h
  split at h
  · cases h
    refine { Adds.refl s with isDirectory_of_isDirectory := ?_ }
    intro other hother
    simp only [FileTree.isDirectory, Bool.or_eq_true, decide_eq_true_eq,
      List.mem_append] at hother ⊢
    exact hother.imp_right Or.inl
  · cases h

theorem keeps_makeDirectory (path : Text) : Keeps (Adds [] []) (makeDirectory path) := by
  intro s
  unfold makeDirectory
  rw [outcome_bind_of_ok (outcome_get s)]
  dsimp only
  split
  · exact Adds.refl s
  · split
    · exact Adds.refl s
    · rename_i tree htree
      exact adds_addDirectory htree _

theorem keeps_makeDirectories (path : Text) : Keeps (Adds [] []) (makeDirectories path) := by
  induction path using makeDirectories.induct with
  | case1 path above name h ih =>
    rw [makeDirectories, dif_pos h]
    refine Keeps.bind (keeps_pathExists _) fun isThere => ?_
    split
    · exact keeps_makeDirectory path
    · refine Keeps.bind ih fun _ => ?_
      split
      · exact Keeps.pure true
      · exact keeps_makeDirectory path
  | case2 path above name h =>
    rw [makeDirectories, dif_neg h]
    exact keeps_makeDirectory path

/-! ## Writing a new file -/

theorem adds_write {path content : Text} {tree : FileTree}
    (hnew : s.tree.contains (s.locate path) = false)
    (h : s.tree.write (s.locate path) (.text content) = .ok tree) :
    Adds [⟨path, s.locate path, content⟩] [] s { s with
      tree
      journal := { s.journal with
        writes := s.journal.writes ++ [⟨path, s.locate path, content⟩] } } := by
  obtain rfl := FileTree.of_write_eq_ok h
  refine { Adds.refl s with
    writes_eq := rfl, nodup := by simp, new := ?_, file_eq_of_mem := ?_, file_eq_of_notMem := ?_ }
  · intro w hw
    rw [List.mem_singleton.mp hw]
    exact hnew
  · intro w hw
    rw [List.mem_singleton.mp hw]
    exact FileTree.file?_put_self s.tree _ _
  · intro other hother
    exact FileTree.file?_put_of_ne (by simpa using hother) s.tree _

end Action

end NlsBundle
