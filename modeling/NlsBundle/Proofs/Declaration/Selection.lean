import NlsBundle.Proofs.Conversion.Refusal
import NlsBundle.Proofs.Declaration.Naming
import NlsBundle.Proofs.Text.Row

/-!
# Selecting and removing declaration lines

A line is selected by the words of a declaration, wherever they stand in it. Proved here:

* `divided_iff`: the lines of a text are the only way to divide it at its line ends;
* `isDeclaration_iff`: a line is selected exactly if it has the words in their order and no
  parenthesis before its end;
* `declarationLines_eq`, `removeLines_declarationLines`: so these are the selected lines, and the
  others are what stays;
* `declarationLines_flatten`: lines that were apart can become one, but no such line is selected;
* `removeLines_partition`: selection and removal divide the lines of a file.
-/

namespace NlsBundle

namespace Text

/-! ## Lines -/

/-- The ways in which a line can end before the rest of a text. -/
def EndsBefore (lineEnd rest : Text) : Prop :=
  lineEnd = ['\n'] ∨ lineEnd = ['\r', '\n'] ∨ lineEnd = ['\r'] ∧ rest.head? ≠ some '\n'

/-- A text is divided into lines: each is unbroken up to its end. The last line may have no end, but
then it is not empty. -/
inductive Divided : Text → List Text → Prop
  | nil : Divided [] []
  | unended {x : Text} : Unbroken x → x ≠ [] → Divided x [x]
  | ended {x lineEnd t : Text} {ls : List Text} : Unbroken x → EndsBefore lineEnd t → Divided t ls →
    Divided (x ++ lineEnd ++ t) ((x ++ lineEnd) :: ls)

theorem lines_of_endsBefore {lineEnd t : Text} (h : EndsBefore lineEnd t) :
    lines (lineEnd ++ t) = lineEnd :: lines t := by
  rcases h with rfl | rfl | ⟨rfl, hnext⟩
  · simp [lines]
  · rfl
  · cases t with
    | nil => rfl
    | cons c t =>
      have hc : c ≠ '\n' := by simpa using hnext
      simp [lines, hc]

theorem lines_append {x t line : Text} {ls : List Text} (hx : Unbroken x)
    (h : lines t = line :: ls) :
    lines (x ++ t) = (x ++ line) :: ls := by
  induction x with
  | nil => exact h
  | cons c x ih =>
    obtain ⟨hc, hx⟩ := List.forall_mem_cons.mp hx
    simp only [isLineEnd, Bool.or_eq_false_iff, decide_eq_false_iff_not] at hc
    simp [lines, hc, ih hx]

theorem Divided.eq_lines {t : Text} {ls : List Text} (h : Divided t ls) : ls = lines t := by
  induction h with
  | nil => rfl
  | @unended x hx hne =>
    obtain ⟨front, c, rfl⟩ := (List.eq_nil_or_concat x).resolve_left hne
    have hc := hx c (by simp)
    simp only [isLineEnd, Bool.or_eq_false_iff, decide_eq_false_iff_not] at hc
    have hlast : lines [c] = [[c]] := by simp [lines, hc]
    rw [List.concat_eq_append] at hx ⊢
    exact (lines_append (fun d hd => hx d (List.mem_append_left [c] hd)) hlast).symm
  | ended hx hend _ ih =>
    rw [List.append_assoc, ih]
    exact (lines_append hx (lines_of_endsBefore hend)).symm

theorem Divided.cons {c : Char} {t line : Text} {ls : List Text} (hc : isLineEnd c = false)
    (h : Divided t (line :: ls)) :
    Divided (c :: t) ((c :: line) :: ls) := by
  cases h with
  | unended hx hne => exact .unended (List.forall_mem_cons.mpr ⟨hc, hx⟩) (List.cons_ne_nil _ _)
  | @ended x lineEnd t _ hx hend hrest =>
      exact .ended (x := c :: x) (List.forall_mem_cons.mpr ⟨hc, hx⟩) hend hrest

theorem divided_lines (t : Text) : Divided t (lines t) := by
  fun_induction lines t with
  | case1 => exact .nil
  | case2 t ih => exact .ended (x := []) (by simp [Unbroken]) (Or.inr (Or.inl rfl)) ih
  | case3 c t hnext hc ih =>
    show Divided ([] ++ [c] ++ t) (([] ++ [c]) :: lines t)
    refine .ended (by simp [Unbroken]) ?_ ih
    rcases hc with rfl | rfl
    · exact Or.inl rfl
    · refine Or.inr (Or.inr ⟨rfl, fun hhead => ?_⟩)
      obtain ⟨rest, rfl⟩ := List.head?_eq_some_iff.mp hhead
      exact hnext rest rfl rfl
  | case4 c t _ hc hl ih =>
    have ht : t = [] := by rw [← flatten_lines t, hl, List.flatten_nil]
    rw [ht]
    exact .unended (by simpa [Unbroken, isLineEnd] using hc) (List.cons_ne_nil _ _)
  | case5 c t _ hc line rest hl ih =>
    rw [hl] at ih
    exact ih.cons (by simpa [isLineEnd] using hc)

theorem divided_iff {t : Text} {ls : List Text} : Divided t ls ↔ ls = lines t :=
  ⟨Divided.eq_lines, fun h => h ▸ divided_lines t⟩

end Text

namespace Declaration

open Text

/-! ## Selected lines -/

/-- The line has the words of a declaration in their order, and no parenthesis. -/
def Declares (line : Text) : Prop := InOrder declarationWords line ∧ '(' ∉ line

instance : DecidablePred Declares := fun line =>
  inferInstanceAs (Decidable (InOrder declarationWords line ∧ '(' ∉ line))

theorem declarationWords_unbroken :
    ∀ word ∈ declarationWords, word ≠ [] ∧ Unbroken word := by decide

variable {x e content : Text}

theorem declarationWords_apart (he : LineEnd e) :
    ∀ word ∈ declarationWords, word ≠ [] ∧ ∀ c ∈ word, c ∉ e := by
  intro word hword
  obtain ⟨hne, hunbroken⟩ := declarationWords_unbroken word hword
  exact ⟨hne, fun c hc hce => hunbroken.notMem (he c hce) hc⟩

theorem parenthesis_notMem_append (he : LineEnd e) : '(' ∉ x ++ e ↔ '(' ∉ x := by
  have hend : '(' ∉ e := fun hmem => absurd (he '(' hmem) (by decide)
  simp [hend]

/-- How a line ends makes no difference. -/
theorem declares_append_iff (he : LineEnd e) : Declares (x ++ e) ↔ Declares x :=
  and_congr (inOrder_append_iff (declarationWords_apart he)) (parenthesis_notMem_append he)

theorem isDeclaration_iff (hx : Unbroken x) (he : LineEnd e) :
    isDeclaration (x ++ e) = true ↔ Declares x := by
  have hfeed : '\n' ∉ x := hx.notMem rfl
  rw [isDeclaration, Bool.and_eq_true, decide_eq_true_eq, parenthesis_notMem_append he,
    declarationPattern_eq]
  exact and_congr_left fun _ => Pattern.occursIn_gapped_iff hfeed (declarationWords_apart he)

theorem declarationLines_eq (content : Text) :
    declarationLines content = (lines content).filter (Declares ·) := by
  refine List.filter_congr fun line hline => ?_
  obtain ⟨x, e, rfl, hx, he⟩ := exists_of_mem_lines hline
  rw [Bool.eq_iff_iff, isDeclaration_iff hx he, decide_eq_true_iff, declares_append_iff he]

/-! ## Other lines -/

theorem removeLines_declarationLines (content : Text) :
    MessageClass.removeLines (declarationLines content) content =
      ((lines content).filter (¬ Declares ·)).flatten := by
  rw [MessageClass.removeLines, MessageClass.keptLines, declarationLines_eq]
  congr 1
  refine List.filter_congr fun line hline => ?_
  simp [hline]

theorem hasAnyLine_declarationLines (content : Text) :
    MessageClass.hasAnyLine (declarationLines content) content =
      decide ((lines content).filter (Declares ·) ≠ []) := by
  have hnone : MessageClass.hasAnyLine (declarationLines content) content = false ↔
      (lines content).filter (Declares ·) = [] := by
    rw [MessageClass.hasAnyLine_eq_false_iff, declarationLines_eq, List.filter_eq_nil_iff]
    exact forall₂_congr fun line hline => by simp [hline]
  by_cases hempty : (lines content).filter (Declares ·) = []
  · rw [hnone.mpr hempty, decide_eq_false (not_not.mpr hempty)]
  · rw [Bool.eq_true_of_not_eq_false (mt hnone.mp hempty), decide_eq_true hempty]

theorem solid_of_declares (h : Declares x) : allBlank x = false := by
  obtain ⟨⟨a, b, hx, _⟩, _⟩ := h
  have hmem : 'p' ∈ x := hx ▸ List.mem_append_left b (List.mem_append_right a (by decide))
  exact List.all_eq_false.mpr ⟨'p', hmem, by decide⟩

/-- A line end can meet the next one where a line was taken out, so that two lines become one. The
words of a declaration are in one of them then. -/
theorem declarationLines_flatten (content : Text) :
    declarationLines ((lines content).filter (¬ Declares ·)).flatten = [] := by
  rw [declarationLines_eq, List.filter_eq_nil_iff]
  intro line hline hdeclares
  obtain ⟨x, e, rfl, hx, he⟩ := exists_of_mem_lines hline
  have hdeclares : Declares x := (declares_append_iff he).mp (by simpa using hdeclares)
  -- the text of the line is a row of the lines that were kept
  have hrow : x ∈ rows ((lines content).filter (¬ Declares ·)).flatten := by
    rw [rows_eq_flatMap_lines]
    refine List.mem_flatMap.mpr ⟨x ++ e, hline, ?_⟩
    rw [rows_line hx he, solid_of_declares hdeclares]
    exact List.mem_singleton.mpr rfl
  rw [rows_flatten ((pairwise_lines content).filter _)] at hrow
  obtain ⟨kept, hkept, hrow⟩ := List.mem_flatMap.mp hrow
  obtain ⟨hmem, hnot⟩ := List.mem_filter.mp hkept
  obtain ⟨e', rfl, he'⟩ := exists_of_mem_rows hmem hrow
  exact absurd ((declares_append_iff he').mpr hdeclares) (by simpa using hnot)

end Declaration

namespace Conversion

open NlsBundle.Action

variable {s : Session} {path content : Text}

theorem outcome_declarationLines (h : s.Holds path content) :
    outcome (declarationLines path) s = (.ok (Declaration.declarationLines content), s) := by
  rw [declarationLines, outcome_bind_of_ok (outcome_readText_of_holds h)]
  rfl

/-- **Selection and removal divide the lines of a file.** There is one way to divide a file into
lines. The selected lines are, in order and with their line ends, those that have the words of a
declaration in their order and no parenthesis. If they are removed, it is said whether there were
any, and the file has all other lines, in order and as they were. It has no selected line then, so
that to do it again changes nothing. -/
theorem removeLines_partition (h : Writable s path content) :
    ∃ ls, (∀ other, Text.Divided content other ↔ other = ls) ∧
      outcome (declarationLines path) s = (.ok (ls.filter (Declaration.Declares ·)), s) ∧
      ∃ s', outcome (declarationLines path >>= removeLines path) s =
          (.ok (decide (ls.filter (Declaration.Declares ·) ≠ [])), s') ∧
        Rewritten path (ls.filter (¬ Declaration.Declares ·)).flatten s s' ∧
        outcome (declarationLines path) s' = (.ok [], s') ∧
        ∃ s'', outcome (declarationLines path >>= removeLines path) s' = (.ok false, s'') ∧
          s''.tree = s'.tree := by
  have hselect := outcome_declarationLines h.toHolds
  obtain ⟨s', hremove, hrewritten⟩ := outcome_removeLines h (Declaration.declarationLines content)
  rw [Declaration.hasAnyLine_declarationLines] at hremove
  rw [Declaration.removeLines_declarationLines] at hrewritten
  have hwritable := hrewritten.writable h
  have hnone := outcome_declarationLines hwritable.toHolds
  rw [Declaration.declarationLines_flatten] at hnone
  obtain ⟨s'', hagain, hsame⟩ := outcome_removeLines hwritable []
  rw [MessageClass.hasAnyLine_eq_false_iff.mpr fun _ _ => List.not_mem_nil] at hagain
  rw [MessageClass.removeLines_eq_self_iff.mpr fun _ _ => List.not_mem_nil] at hsame
  refine ⟨Text.lines content, fun _ => Text.divided_iff, ?_, s', ?_, hrewritten, hnone, s'', ?_, ?_⟩
  · rw [hselect, Declaration.declarationLines_eq]
  · rw [outcome_bind_of_ok hselect, hremove]
  · rw [outcome_bind_of_ok hnone, hagain]
  · rw [hsame.tree_eq, FileTree.put_eq_self hwritable.file_eq]

/-- A declaration after a carriage return and before an empty line. -/
def apartClass : Text := "class M\r  public static String a;\n\n".toList

/-- Without the declaration the two line ends are one. -/
theorem removeLines_partition_apart :
    Writable (smallModule apartClass) "/w/M.java".toList apartClass ∧
    ∃ s' s'', outcome (declarationLines "/w/M.java".toList >>= removeLines "/w/M.java".toList)
        (smallModule apartClass) = (.ok true, s') ∧
      s'.tree.file? "/w/M.java".toList = some (.text "class M\r\n".toList) ∧
      outcome (declarationLines "/w/M.java".toList >>= removeLines "/w/M.java".toList) s' =
        (.ok false, s'') ∧
      s''.tree = s'.tree := by
  have hwritable := writable_smallModule apartClass
  obtain ⟨ls, hls, _, s', hremove, hrewritten, _, s'', hagain, hsame⟩ :=
    removeLines_partition hwritable
  obtain rfl := (hls (Text.lines apartClass)).mp (Text.divided_lines apartClass)
  have hany : (Text.lines apartClass).filter (Declaration.Declares ·) ≠ [] := by decide +kernel
  rw [decide_eq_true hany] at hremove
  refine ⟨hwritable, s', s'', hremove, ?_, hagain, hsame⟩
  rw [hrewritten.tree_eq]
  decide +kernel

end Conversion

end NlsBundle
