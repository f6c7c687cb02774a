import Mathlib.Data.List.Flatten
import NlsBundle.Proofs.Conversion.Listing
import NlsBundle.Proofs.Conversion.Split

/-!
# Message classes that cannot be adapted

A message class is adapted in two steps, each of which writes its file: its declaration lines are
removed, and then the rest is edited. Proved here:

* `MessageClass.removeLines_eq_self_iff`: a text changes exactly if it has one of the lines that are
  removed;
* `outcome_writeText_of_writable`: what is written to a file is all that changes in the tree;
* `outcome_adaptClass`: what adapting a class gives, and what is in its file then;
* `verdict_ne_true_iff`: when a class is not adapted;
* `adaptClass_refused_iff`: a class that is not adapted has lost its declaration lines all the same,
  so its file stays as it was exactly if it had none of them.
-/

namespace NlsBundle

/-! ## Removed lines -/

theorem Text.ne_nil_of_mem_lines {t line : Text} (h : line ∈ lines t) : line ≠ [] := by
  fun_induction lines t generalizing line with
  | case1 => simp at h
  | case2 t ih =>
    rcases List.mem_cons.mp h with rfl | h
    · simp
    · exact ih h
  | case3 c t _ _ ih =>
    rcases List.mem_cons.mp h with rfl | h
    · simp
    · exact ih h
  | case4 c t _ _ _ _ =>
    rw [List.mem_singleton.mp h]
    simp
  | case5 c t _ _ first rest hl ih =>
    rcases List.mem_cons.mp h with rfl | h
    · simp
    · exact ih (hl ▸ List.mem_cons_of_mem first h)

theorem Text.flatten_filter_eq_iff {p : Text → Bool} {pieces : List Text}
    (h : ∀ piece ∈ pieces, piece ≠ []) :
    (pieces.filter p).flatten = pieces.flatten ↔ ∀ piece ∈ pieces, p piece = true := by
  induction pieces with
  | nil => simp
  | cons piece pieces ih =>
    have hrest := ih fun other hother => h other (List.mem_cons_of_mem piece hother)
    by_cases hp : p piece = true
    · simp [hp, hrest]
    · -- what is left is at most as long as the pieces after the one that is missing
      have hle : (pieces.filter p).flatten.length ≤ pieces.flatten.length :=
        List.filter_sublist.flatten.length_le
      have hpos := List.length_pos_of_ne_nil (h piece List.mem_cons_self)
      rw [List.filter_cons_of_neg hp, List.flatten_cons]
      refine iff_of_false (fun heq => ?_) fun hall => hp (hall piece List.mem_cons_self)
      have hlen := congrArg List.length heq
      rw [List.length_append] at hlen
      omega

namespace MessageClass

theorem removeLines_eq_self_iff {removed : List Text} {content : Text} :
    removeLines removed content = content ↔ ∀ line ∈ Text.lines content, line ∉ removed := by
  have h := Text.flatten_filter_eq_iff (p := (· ∉ removed))
    fun line => Text.ne_nil_of_mem_lines (t := content)
  rw [Text.flatten_lines] at h
  simpa [removeLines, keptLines] using h

theorem hasAnyLine_eq_false_iff {removed : List Text} {content : Text} :
    hasAnyLine removed content = false ↔ ∀ line ∈ Text.lines content, line ∉ removed := by
  simp [hasAnyLine]

end MessageClass

namespace Conversion

open NlsBundle.Action

variable {s s₁ s₂ : Session} {path content new : Text}

/-! ## Files that can be written -/

/-- The path leads to a file with this text, and to nothing else. -/
structure Writable (s : Session) (path content : Text) : Prop extends s.Holds path content where
  not_directory : s.tree.isDirectory (s.locate path) = false

/-- The file at the path has this text now, and nothing else in the tree has changed. -/
structure Rewritten (path content : Text) (s s' : Session) : Prop where
  workingDirectory_eq : s'.workingDirectory = s.workingDirectory
  tree_eq : s'.tree = s.tree.put (s.locate path) (.text content)

theorem Rewritten.locate_eq (h : Rewritten path content s s₁) : s₁.locate = s.locate := by
  funext other
  rw [Session.locate, Session.locate, h.workingDirectory_eq]

theorem Rewritten.trans (h : Rewritten path content s s₁)
    (h' : Rewritten path new s₁ s₂) : Rewritten path new s s₂ where
  workingDirectory_eq := h'.workingDirectory_eq.trans h.workingDirectory_eq
  tree_eq := by rw [h'.tree_eq, h.locate_eq, h.tree_eq, FileTree.put_put]

theorem Rewritten.untouched (h : Rewritten path content s s₁)
    (h' : Untouched s₁ s₂) : Rewritten path content s s₂ where
  workingDirectory_eq := h'.workingDirectory_eq.trans h.workingDirectory_eq
  tree_eq := h'.tree_eq.trans h.tree_eq

theorem Writable.rewritten_self (h : Writable s path content)
    (h' : Untouched s s₁) : Rewritten path content s s₁ where
  workingDirectory_eq := h'.workingDirectory_eq
  tree_eq := by rw [h'.tree_eq, FileTree.put_eq_self h.file_eq]

theorem Rewritten.writable (h : Rewritten path new s s₁)
    (hs : Writable s path content) : Writable s₁ path new where
  path_ne_nil := hs.path_ne_nil
  file_eq := by rw [h.tree_eq, h.locate_eq, FileTree.file?_put_self]
  not_directory := by rw [h.tree_eq, h.locate_eq, FileTree.isDirectory_put, hs.not_directory]

theorem outcome_writeText_of_writable (h : Writable s path content) (new : Text) :
    ∃ s', outcome (writeText path new) s = (.ok (), s') ∧ Rewritten path new s s' := by
  have hfile : s.tree.isFile (s.locate path) = true := by
    rw [FileTree.isFile, h.file_eq]
    rfl
  exact ⟨_, outcome_writeText_of_ok (FileTree.write_eq_put h.not_directory hfile _), rfl, rfl⟩

/-! ## Adapting a class -/

theorem outcome_removeLines (h : Writable s path content) (lines : List Text) :
    ∃ s', outcome (removeLines path lines) s = (.ok (MessageClass.hasAnyLine lines content), s') ∧
      Rewritten path (MessageClass.removeLines lines content) s s' := by
  obtain ⟨s', hwrite, hrewritten⟩ :=
    outcome_writeText_of_writable h (MessageClass.removeLines lines content)
  refine ⟨s', ?_, hrewritten⟩
  rw [removeLines, outcome_bind_of_ok (outcome_readText_of_holds h.toHolds),
    outcome_bind_of_ok hwrite]
  rfl

/-- What adapting a class with this content gives. -/
def verdict (lines : List Text) (content : Text) : Except Failure Bool :=
  match MessageClass.adapt (MessageClass.removeLines lines content) with
  | .error .noStaticBlock => .ok false
  | .error .noBaseClassImport => .error .noBaseClassImport
  | .error .noClassEnd => .error .notFound
  | .ok adapted =>
      .ok (MessageClass.hasAnyLine lines content || adapted ≠
        MessageClass.removeLines lines content)

/-- What is in the file of a class with this content after that. -/
def leftContent (lines : List Text) (content : Text) : Text :=
  match MessageClass.adapt (MessageClass.removeLines lines content) with
  | .error _ => MessageClass.removeLines lines content
  | .ok adapted => adapted

theorem outcome_adaptClass (h : Writable s path content) (lines : List Text) :
    ∃ s', outcome (adaptClass path lines) s = (verdict lines content, s') ∧
      Rewritten path (leftContent lines content) s s' := by
  have hbegin := untouched_say .info ("rewriting Message file ".toList ++ path) s
  obtain ⟨_, hsay⟩ := outcome_say_cases .info ("rewriting Message file ".toList ++ path) s
  rw [hsay] at hbegin
  have hstart := h.rewritten_self hbegin
  obtain ⟨s₂, hremove, hremoved⟩ := outcome_removeLines (hstart.writable h) lines
  have hkept := hstart.trans hremoved
  rw [adaptClass, outcome_bind_of_ok hsay, outcome_bind_of_ok hremove,
    outcome_bind_of_ok (outcome_readText_of_holds (hkept.writable h).toHolds)]
  unfold verdict leftContent
  cases hadapt : MessageClass.adapt (MessageClass.removeLines lines content) with
  | error e =>
    cases e with
    | noStaticBlock =>
      have hend := untouched_say .warning ("No static block found in file ".toList ++ path) s₂
      obtain ⟨_, hwarn⟩ :=
        outcome_say_cases .warning ("No static block found in file ".toList ++ path) s₂
      rw [hwarn] at hend
      exact ⟨_, outcome_bind_of_ok hwarn, hkept.untouched hend⟩
    | noBaseClassImport => exact ⟨s₂, rfl, hkept⟩
    | noClassEnd => exact ⟨s₂, rfl, hkept⟩
  | ok adapted =>
    dsimp only
    split
    · rename_i hchanged
      obtain ⟨s₃, hwrite, hadapted⟩ := outcome_writeText_of_writable (hkept.writable h) adapted
      refine ⟨s₃, ?_, hkept.trans hadapted⟩
      rw [outcome_bind_of_ok hwrite, hchanged]
      rfl
    · rename_i hsame
      rw [Bool.not_eq_true, Bool.or_eq_false_iff, decide_eq_false_iff_not, not_not] at hsame
      rw [hsame.1, hsame.2]
      exact ⟨s₂, by simp, hkept⟩

/-! ## Refusals -/

theorem verdict_ne_true_iff (lines : List Text) (content : Text) :
    verdict lines content ≠ .ok true ↔
      (∃ e, MessageClass.adapt (MessageClass.removeLines lines content) = .error e) ∨
        (∀ line ∈ Text.lines content, line ∉ lines) ∧ MessageClass.adapt content = .ok content := by
  unfold verdict
  cases hadapt : MessageClass.adapt (MessageClass.removeLines lines content) with
  | error e => cases e <;> simp
  | ok adapted =>
    simp only [reduceCtorEq, exists_false, false_or, ne_eq, Except.ok.injEq, Bool.not_eq_true,
      Bool.or_eq_false_iff, decide_eq_false_iff_not, not_not, MessageClass.hasAnyLine_eq_false_iff]
    refine and_congr_right fun hnone => ?_
    rw [MessageClass.removeLines_eq_self_iff.mpr hnone] at hadapt ⊢
    rw [hadapt, Except.ok.injEq]

theorem leftContent_of_refused {lines : List Text} (h : verdict lines content ≠ .ok true) :
    leftContent lines content = MessageClass.removeLines lines content := by
  unfold leftContent
  rcases (verdict_ne_true_iff lines content).mp h with ⟨e, hadapt⟩ | ⟨hnone, hadapt⟩
  · rw [hadapt]
  · rw [MessageClass.removeLines_eq_self_iff.mpr hnone, hadapt]

/-- **A class that is not adapted keeps its text only if there were no lines to remove.** Adapting a
class that is in a file says that nothing was changed, or fails, exactly if the class without the
lines lacks a static block, the import of its base class or its end, or if there was nothing to do.
In all these cases the lines have been removed from the file, and nothing else has happened to the
tree. So the file, and the whole tree, is as it was before exactly if none of its lines was to be
removed. -/
theorem adaptClass_refused_iff (h : Writable s path content) (lines : List Text) :
    ∃ r s', outcome (adaptClass path lines) s = (r, s') ∧
      (r ≠ .ok true ↔
        (∃ e, MessageClass.adapt (MessageClass.removeLines lines content) = .error e) ∨
          (∀ line ∈ Text.lines content, line ∉ lines) ∧ MessageClass.adapt content = .ok content) ∧
      (r ≠ .ok true →
        s'.tree = s.tree.put (s.locate path) (.text (MessageClass.removeLines lines content)) ∧
        (s'.tree.file? (s.locate path) = s.tree.file? (s.locate path) ↔
          ∀ line ∈ Text.lines content, line ∉ lines) ∧
        (s'.tree = s.tree ↔ ∀ line ∈ Text.lines content, line ∉ lines)) := by
  obtain ⟨s', houtcome, hrewritten⟩ := outcome_adaptClass h lines
  refine ⟨_, s', houtcome, verdict_ne_true_iff lines content, fun hrefused => ?_⟩
  rw [leftContent_of_refused hrefused] at hrewritten
  have htree := hrewritten.tree_eq
  have hfile : s'.tree.file? (s.locate path) = s.tree.file? (s.locate path) ↔
      ∀ line ∈ Text.lines content, line ∉ lines := by
    rw [htree, FileTree.file?_put_self, h.file_eq, Option.some.injEq, Content.text.injEq,
      MessageClass.removeLines_eq_self_iff]
  refine ⟨htree, hfile, fun hsame => ?_, fun hnone => ?_⟩
  · exact hfile.mp (by rw [hsame])
  · rw [htree, MessageClass.removeLines_eq_self_iff.mpr hnone, FileTree.put_eq_self h.file_eq]

theorem writable_smallModule (content : Text) :
    Writable (smallModule content) "/w/M.java".toList content :=
  ⟨holds_smallModule content, rfl⟩

/-- The small class has no static block. It stays as it is where no line of it is to be removed. -/
theorem adaptClass_refused_iff_small :
    Writable (smallModule smallClass) "/w/M.java".toList smallClass ∧
    ∃ r s', outcome (adaptClass "/w/M.java".toList ["  public static String b;\n".toList])
        (smallModule smallClass) = (r, s') ∧
      r ≠ .ok true ∧ s'.tree = (smallModule smallClass).tree := by
  have hwritable := writable_smallModule smallClass
  obtain ⟨r, s', houtcome, hrefused, hkept⟩ :=
    adaptClass_refused_iff hwritable ["  public static String b;\n".toList]
  have hr : r ≠ .ok true := hrefused.mpr (Or.inl ⟨.noStaticBlock, by decide +kernel⟩)
  exact ⟨hwritable, r, s', houtcome, hr, (hkept hr).2.2.mpr (by decide +kernel)⟩

/-- The small class with a static block. It does not import its base class. -/
def blockClass : Text :=
  "package p;\nclass M extends NLS \x7b\n".toList ++
    "  public static String a;\n  static \x7b\n  \x7d\n\x7d\n".toList

/-- Without a static block a class counts as unchanged, and without the import of its base class it
cannot be adapted, but its declaration line is gone in both cases. -/
theorem adaptClass_refused_drops_line :
    (∃ s', outcome (adaptClass "/w/M.java".toList ["  public static String a;\n".toList])
        (smallModule smallClass) = (.ok false, s') ∧
      s'.tree.file? "/w/M.java".toList ≠ (smallModule smallClass).tree.file? "/w/M.java".toList) ∧
    ∃ s', outcome (adaptClass "/w/M.java".toList ["  public static String a;\n".toList])
        (smallModule blockClass) = (.error .noBaseClassImport, s') ∧
      s'.tree.file? "/w/M.java".toList ≠
        (smallModule blockClass).tree.file? "/w/M.java".toList := by
  exact ⟨⟨_, outcome_eq_of_fst (by decide +kernel), by decide +kernel⟩,
    ⟨_, outcome_eq_of_fst (by decide +kernel), by decide +kernel⟩⟩

end Conversion

end NlsBundle
