import NlsBundle.Proofs.Session.Effect

/-!
# What a change does to a file tree

A file is changed by setting its content. Proved here:

* `file?_put_self`, `file?_put_of_ne`: the content is set there, and all other files stay as they
  are;
* `put_eq_self`, `put_put`: to set what is there already changes nothing, and only the last content
  that is set counts;
* `put_comm`: the order of changes to different files makes no difference, if one of them is there;
* `foldl_put_perm`: so the order makes no difference to any number of changes;
* `of_write_eq_ok`, `write_eq_put`: writing is setting, wherever no directory is in the way.
-/

namespace NlsBundle.FileTree

/-! ## Setting a content -/

/-- The tree with this content at the path. -/
def put (tree : FileTree) (path : Text) (content : Content) : FileTree :=
  { tree with files := putFile path content tree.files }

theorem lookup_putFile_of_ne {path other : Text} (h : other ≠ path) (content : Content)
    (files : List (Text × Content)) :
    (putFile path content files).lookup other = files.lookup other := by
  have hpath : (other == path) = false := by simpa using h
  induction files with
  | nil => simp [putFile, List.lookup_cons, hpath]
  | cons entry rest ih =>
    by_cases hentry : entry.1 = path
    · rw [putFile, if_pos hentry, List.lookup_cons, List.lookup_cons, hentry, hpath]
    · rw [putFile, if_neg hentry, List.lookup_cons, List.lookup_cons, ih]

@[simp] theorem file?_put_self (tree : FileTree) (path : Text) (content : Content) :
    (tree.put path content).file? path = some content := lookup_putFile path content tree.files

theorem file?_put_of_ne {path other : Text} (h : other ≠ path) (tree : FileTree)
    (content : Content) :
    (tree.put path content).file? other = tree.file? other :=
      lookup_putFile_of_ne h content tree.files

@[simp] theorem directories_put (tree : FileTree) (path : Text) (content : Content) :
    (tree.put path content).directories = tree.directories := rfl

@[simp] theorem isDirectory_put (tree : FileTree) (path other : Text) (content : Content) :
    (tree.put path content).isDirectory other = tree.isDirectory other := rfl

theorem isFile_put (tree : FileTree) {path other : Text} (content : Content)
    (h : tree.isFile other = true) :
    (tree.put path content).isFile other = true := by
  by_cases hother : other = path
  · rw [hother, isFile, file?_put_self]
    rfl
  · rwa [isFile, file?_put_of_ne hother]

theorem putFile_eq_self {path : Text} {content : Content} {files : List (Text × Content)}
    (h : files.lookup path = some content) : putFile path content files = files := by
  induction files with
  | nil => cases h
  | cons entry rest ih =>
    rw [List.lookup_cons] at h
    by_cases hentry : entry.1 = path
    · rw [hentry, beq_self_eq_true] at h
      rw [putFile, if_pos hentry, ← hentry, ← Option.some.inj h]
    · have hne : (path == entry.1) = false := by simpa using Ne.symm hentry
      rw [hne] at h
      rw [putFile, if_neg hentry, ih h]

theorem put_eq_self {tree : FileTree} {path : Text} {content : Content}
    (h : tree.file? path = some content) :
    tree.put path content = tree := by
  rw [put, putFile_eq_self h]

theorem putFile_putFile (path : Text) (c d : Content) (files : List (Text × Content)) :
    putFile path d (putFile path c files) = putFile path d files := by
  induction files with
  | nil => simp [putFile]
  | cons entry rest ih =>
    by_cases hentry : entry.1 = path
    · simp [putFile, hentry]
    · simp [putFile, hentry, ih]

/-- The last content that is set counts. -/
@[simp] theorem put_put (tree : FileTree) (path : Text) (c d : Content) :
    (tree.put path c).put path d = tree.put path d := by
  simp only [put, putFile_putFile]

theorem putFile_comm {p q : Text} (hne : p ≠ q) (c d : Content) {files : List (Text × Content)}
    (h : (files.lookup p).isSome = true) :
    putFile q d (putFile p c files) = putFile p c (putFile q d files) := by
  induction files with
  | nil => cases h
  | cons entry rest ih =>
    by_cases hp : entry.1 = p
    · simp [putFile, hp, hne]
    · by_cases hq : entry.1 = q
      · simp [putFile, hq, hne.symm]
      · have hpe : (p == entry.1) = false := by simpa using Ne.symm hp
        rw [List.lookup_cons, hpe] at h
        simp [putFile, hp, hq, ih h]

/-- Changes to different files can be made in any order. -/
theorem put_comm {tree : FileTree} {p q : Text} (hne : p ≠ q) (c d : Content)
    (h : tree.isFile p = true) :
    (tree.put p c).put q d = (tree.put q d).put p c := by
  simp only [put, putFile_comm hne c d h]

theorem foldl_put_perm {α : Type} {place : α → Text} {content : α → Content} {xs ys : List α}
    (h : xs.Perm ys) :
    ∀ tree : FileTree, (xs.map place).Nodup → (∀ x ∈ xs, tree.isFile (place x) = true) →
      xs.foldl (fun tree x => tree.put (place x) (content x)) tree =
        ys.foldl (fun tree x => tree.put (place x) (content x)) tree := by
  induction h with
  | nil =>
    intro tree _ _
    rfl
  | cons x _ ih =>
    intro tree hnodup hfile
    rw [List.map_cons, List.nodup_cons] at hnodup
    rw [List.foldl_cons, List.foldl_cons]
    exact ih _ hnodup.2 fun y hy => isFile_put tree _ (hfile y (List.mem_cons_of_mem x hy))
  | swap x y rest =>
    intro tree hnodup hfile
    have hne : place y ≠ place x := by
      intro heq
      simp [heq] at hnodup
    simp only [List.foldl_cons]
    rw [put_comm hne _ _ (hfile y List.mem_cons_self)]
  | trans h₁ _ ih₁ ih₂ =>
    intro tree hnodup hfile
    rw [ih₁ tree hnodup hfile]
    exact ih₂ tree ((h₁.map place).nodup_iff.mp hnodup) fun x hx => hfile x (h₁.mem_iff.mpr hx)

theorem file?_foldl_put_of_notMem {α : Type} {place : α → Text} {content : α → Content}
    {xs : List α} {other : Text} (h : other ∉ xs.map place) (tree : FileTree) :
    (xs.foldl (fun tree x => tree.put (place x) (content x)) tree).file? other =
      tree.file? other := by
  induction xs generalizing tree with
  | nil => rfl
  | cons x xs ih =>
    rw [List.map_cons, List.mem_cons, not_or] at h
    rw [List.foldl_cons, ih h.2, file?_put_of_ne h.1]

theorem file?_foldl_put_of_mem {α : Type} {place : α → Text} {content : α → Content} {xs : List α}
    (hnodup : (xs.map place).Nodup) {x : α} (hx : x ∈ xs) (tree : FileTree) :
    (xs.foldl (fun tree x => tree.put (place x) (content x)) tree).file? (place x) =
      some (content x) := by
  induction xs generalizing tree with
  | nil => cases hx
  | cons y xs ih =>
    rw [List.map_cons, List.nodup_cons] at hnodup
    rw [List.foldl_cons]
    rcases List.mem_cons.mp hx with rfl | hx
    · rw [file?_foldl_put_of_notMem hnodup.1, file?_put_self]
    · exact ih hnodup.2 hx _

theorem directories_foldl_put {α : Type} (place : α → Text) (content : α → Content) (xs : List α)
    (tree : FileTree) :
    (xs.foldl (fun tree x => tree.put (place x) (content x)) tree).directories =
      tree.directories := by
  induction xs generalizing tree with
  | nil => rfl
  | cons x xs ih => rw [List.foldl_cons, ih, directories_put]

/-! ## Writing -/

theorem of_write_eq_ok {tree tree' : FileTree} {path : Text} {content : Content}
    (h : tree.write path content = .ok tree') : tree' = tree.put path content := by
  unfold write at h
  split at h
  · cases h
  · split at h
    · cases h
      rfl
    · cases h

theorem write_eq_put {tree : FileTree} {path : Text} (hdir : tree.isDirectory path = false)
    (hfile : tree.isFile path = true) (content : Content) :
    tree.write path content = .ok (tree.put path content) := by
  simp [write, hdir, hfile, put]

end NlsBundle.FileTree
