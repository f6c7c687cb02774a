import NlsBundle.Proofs.Text.Replace
import NlsBundle.Text.Blank
import NlsBundle.Text.Line

/-!
# Rows

The rows of a text are what stands between its line ends; blank ones do not count, so it makes no
difference how a line ends and how many line ends there are. Proved here:

* `splitWhere_join`: pieces that lack a separator are found again between separators;
* `rows_append_cons`: the rows on the two sides of a line end are the rows of the whole;
* `rows_of_isPiece`, `rows_eq_nil`: a part of a line is one row, a blank text has none;
* `rows_flatten`, `rows_eq_flatMap_lines`: the rows of a text are those of its lines, and lines may
  be left out;
* `rows_unifyLineEnds`, `findSome?_lines_unifyLineEnds`: to look through the lines of a text with
  its line ends unified is to look through its rows;
* `exists_last_row`, `exists_first_row`: what is put at the end of a text or before it joins one row
  only;
* `exists_row_around`: so does what is put in place of a part of a line;
* `rows_replaceAll`: replacement goes on within rows.
-/

namespace NlsBundle.Text

def isLineEnd (c : Char) : Bool := c = '\n' || c = '\r'

/-- The text is part of one line. -/
def Unbroken (t : Text) : Prop := ∀ c ∈ t, isLineEnd c = false

instance : DecidablePred Unbroken := fun t =>
  decidable_of_iff (t.any isLineEnd = false) (by simp [Unbroken])

/-- The text has line ends only. -/
def LineEnd (t : Text) : Prop := ∀ c ∈ t, isLineEnd c = true

instance : DecidablePred LineEnd := fun t =>
  decidable_of_iff (t.all isLineEnd = true) List.all_eq_true

theorem Unbroken.notMem {t : Text} (h : Unbroken t) {c : Char} (hc : isLineEnd c = true) :
    c ∉ t := by
  intro hm
  rw [h c hm] at hc
  cases hc

/-- A part of one line that is not blank. -/
structure IsPiece (t : Text) : Prop where
  unbroken : Unbroken t
  solid : allBlank t = false

instance : DecidablePred IsPiece := fun t =>
  decidable_of_iff (Unbroken t ∧ allBlank t = false) ⟨fun h => ⟨h.1, h.2⟩, fun h => ⟨h.1, h.2⟩⟩

theorem IsPiece.ne_nil {t : Text} (h : IsPiece t) : t ≠ [] := by
  rintro rfl
  cases h.solid

/-- A blank text has no piece. -/
theorem IsPiece.not_infix {piece t : Text} (h : IsPiece piece) (ht : allBlank t = true) :
    ¬ piece <:+: t := by
  intro hin
  have hall : allBlank piece = true :=
    List.all_eq_true.mpr fun c hc => List.all_eq_true.mp ht c (hin.subset hc)
  exact absurd hall (by simp [h.solid])

theorem IsPiece.append {u piece w : Text} (h : IsPiece piece) (hu : Unbroken u) (hw : Unbroken w) :
    IsPiece (u ++ piece ++ w) where
  unbroken := by
    intro c hc
    simp only [List.mem_append] at hc
    rcases hc with (hc | hc) | hc
    · exact hu c hc
    · exact h.unbroken c hc
    · exact hw c hc
  solid := by
    have hsolid := h.solid
    rw [allBlank] at hsolid ⊢
    simp [hsolid]

/-- What stands between line ends and is not blank. -/
def rows (t : Text) : List Text := (splitWhere isLineEnd t).filter fun row => !allBlank row

/-! ## Division -/

theorem splitWhere_append_cons {isSeparator : Char → Bool} {c : Char} (hc : isSeparator c = true)
    (a b : Text) :
    splitWhere isSeparator (a ++ c :: b) =
      splitWhere isSeparator a ++ splitWhere isSeparator b := by
  induction a with
  | nil => simp [splitWhere, hc]
  | cons d a ih =>
    by_cases hd : isSeparator d = true
    · simp [splitWhere, hd, ih]
    · cases ha : splitWhere isSeparator a with
      | nil => exact absurd ha (splitWhere_ne_nil isSeparator a)
      | cons piece pieces => simp [splitWhere, hd, ih, ha]

theorem splitWhere_of_forall {isSeparator : Char → Bool} {t : Text}
    (h : ∀ c ∈ t, isSeparator c = false) :
    splitWhere isSeparator t = [t] := by
  induction t with
  | nil => rfl
  | cons c t ih =>
    have hc := h c List.mem_cons_self
    simp [splitWhere, hc, ih fun d hd => h d (List.mem_cons_of_mem c hd)]

theorem splitWhere_join {separator : Char} {pieces : List Text} (hne : pieces ≠ [])
    (h : ∀ piece ∈ pieces, separator ∉ piece) :
    splitWhere (· = separator) (join [separator] pieces) = pieces := by
  induction pieces with
  | nil => exact absurd rfl hne
  | cons piece pieces ih =>
    have hpiece : splitWhere (· = separator) piece = [piece] := by
      refine splitWhere_of_forall fun c hc => decide_eq_false ?_
      rintro rfl
      exact h piece List.mem_cons_self hc
    cases pieces with
    | nil => exact hpiece
    | cons next pieces =>
      have hrest :=
        ih (List.cons_ne_nil next pieces) fun other hother =>
          h other (List.mem_cons_of_mem piece hother)
      rw [join_cons_cons, List.append_assoc, List.singleton_append,
        splitWhere_append_cons (decide_eq_true rfl), hpiece, hrest, List.singleton_append]

theorem not_separator_of_mem_splitWhere {isSeparator : Char → Bool} {t piece : Text}
    (h : piece ∈ splitWhere isSeparator t) : ∀ c ∈ piece, isSeparator c = false := by
  induction t generalizing piece with
  | nil =>
    rw [List.mem_singleton.mp h]
    simp
  | cons d t ih =>
    by_cases hd : isSeparator d = true
    · rw [splitWhere, if_pos hd] at h
      rcases List.mem_cons.mp h with rfl | h
      · simp
      · exact ih h
    · cases hsplit : splitWhere isSeparator t with
      | nil => exact absurd hsplit (splitWhere_ne_nil isSeparator t)
      | cons first rest =>
        rw [hsplit] at ih
        simp only [splitWhere, hd, Bool.false_eq_true, if_false, hsplit] at h
        rcases List.mem_cons.mp h with rfl | h
        · intro c hc
          rcases List.mem_cons.mp hc with rfl | hc
          · simpa using hd
          · exact ih List.mem_cons_self c hc
        · exact ih (List.mem_cons_of_mem first h)

/-- A character of a piece is a character of the text. -/
theorem mem_of_mem_splitWhere {isSeparator : Char → Bool} {t piece : Text} {c : Char}
    (hpiece : piece ∈ splitWhere isSeparator t) (hc : c ∈ piece) : c ∈ t := by
  induction t generalizing piece with
  | nil => simp_all [splitWhere]
  | cons d t ih =>
    by_cases hd : isSeparator d = true
    · rw [splitWhere, if_pos hd] at hpiece
      rcases List.mem_cons.mp hpiece with rfl | hpiece
      · simp at hc
      · exact List.mem_cons_of_mem d (ih hpiece hc)
    · cases ht : splitWhere isSeparator t with
      | nil => exact absurd ht (splitWhere_ne_nil isSeparator t)
      | cons first pieces =>
        have hsplit :
            splitWhere isSeparator (d :: t) = (d :: first) :: pieces := by simp [splitWhere, hd, ht]
        rw [hsplit] at hpiece
        rw [ht] at ih
        rcases List.mem_cons.mp hpiece with rfl | hpiece
        · rcases List.mem_cons.mp hc with rfl | hc
          · exact List.mem_cons_self
          · exact List.mem_cons_of_mem d (ih List.mem_cons_self hc)
        · exact List.mem_cons_of_mem d (ih (List.mem_cons_of_mem first hpiece) hc)

/-! ## Rows -/

theorem rows_append_cons {c : Char} (hc : isLineEnd c = true) (a b : Text) :
    rows (a ++ c :: b) = rows a ++ rows b := by
  rw [rows, splitWhere_append_cons hc, List.filter_append]
  rfl

theorem rows_cons {c : Char} (hc : isLineEnd c = true) (t : Text) : rows (c :: t) = rows t :=
  rows_append_cons hc [] t

theorem rows_eq_nil {t : Text} (h : allBlank t = true) : rows t = [] := by
  rw [rows, List.filter_eq_nil_iff]
  intro row hrow
  simp only [allBlank, List.all_eq_true, Bool.not_eq_true', Bool.not_eq_false] at h ⊢
  exact fun c hc => h c (mem_of_mem_splitWhere hrow hc)

theorem rows_of_isPiece {t : Text} (h : IsPiece t) : rows t = [t] := by
  rw [rows, splitWhere_of_forall h.unbroken]
  simp [h.solid]

theorem rows_of_unbroken {t : Text} (h : Unbroken t) : rows t = if allBlank t then [] else [t] := by
  split <;> rename_i hblank
  · exact rows_eq_nil hblank
  · exact rows_of_isPiece ⟨h, by simpa using hblank⟩

/-! ## Lines -/

/-- The last character of the text is a line end. -/
def EndsLine (t : Text) : Prop := ∃ x c, t = x ++ [c] ∧ isLineEnd c = true

theorem EndsLine.cons {t : Text} (h : EndsLine t) (c : Char) : EndsLine (c :: t) := by
  obtain ⟨x, d, rfl, hd⟩ := h
  exact ⟨c :: x, d, rfl, hd⟩

theorem rows_append_of_endsLine {a : Text} (h : EndsLine a) (b : Text) :
    rows (a ++ b) = rows a ++ rows b := by
  obtain ⟨x, c, rfl, hc⟩ := h
  rw [List.append_assoc, List.singleton_append, rows_append_cons hc, rows_append_cons hc]
  simp [rows, splitWhere, allBlank]

/-- Every line but the last has a line end. -/
theorem pairwise_lines (t : Text) : (lines t).Pairwise fun line _ => EndsLine line := by
  fun_induction lines t with
  | case1 => exact List.Pairwise.nil
  | case2 t ih => exact List.Pairwise.cons (fun _ _ => ⟨['\r'], '\n', rfl, rfl⟩) ih
  | case3 c t _ hc ih =>
    refine List.Pairwise.cons (fun _ _ => ⟨[], c, rfl, ?_⟩) ih
    simpa [isLineEnd] using hc
  | case4 c t _ hc hl ih => exact List.pairwise_singleton _ _
  | case5 c t _ hc line rest hl ih =>
    rw [hl] at ih
    refine List.Pairwise.cons (fun other hother => ?_) (List.Pairwise.of_cons ih)
    exact (List.rel_of_pairwise_cons ih hother).cons c

/-- A line is unbroken but for its line end. -/
theorem exists_of_mem_lines {t line : Text} (h : line ∈ lines t) :
    ∃ x e, line = x ++ e ∧ Unbroken x ∧ LineEnd e := by
  fun_induction lines t generalizing line with
  | case1 => simp at h
  | case2 t ih =>
    rcases List.mem_cons.mp h with rfl | h
    · exact ⟨[], ['\r', '\n'], rfl, by simp [Unbroken], by decide⟩
    · exact ih h
  | case3 c t _ hc ih =>
    rcases List.mem_cons.mp h with rfl | h
    · exact ⟨[], [c], rfl, by simp [Unbroken], by simpa [LineEnd, isLineEnd] using hc⟩
    · exact ih h
  | case4 c t _ hc hl ih =>
    obtain rfl := List.mem_singleton.mp h
    exact ⟨[c], [], rfl, by simpa [Unbroken, isLineEnd] using hc, by simp [LineEnd]⟩
  | case5 c t _ hc first rest hl ih =>
    rcases List.mem_cons.mp h with rfl | h
    · obtain ⟨x, e, rfl, hx, he⟩ := ih (hl ▸ List.mem_cons_self)
      refine ⟨c :: x, e, rfl, ?_, he⟩
      intro d hd
      rcases List.mem_cons.mp hd with rfl | hd
      · simpa [isLineEnd] using hc
      · exact hx d hd
    · exact ih (hl ▸ List.mem_cons_of_mem first h)

theorem rows_flatten {ls : List Text} (h : ls.Pairwise fun line _ => EndsLine line) :
    rows ls.flatten = ls.flatMap rows := by
  induction ls with
  | nil => rfl
  | cons line ls ih =>
    rw [List.flatten_cons, List.flatMap_cons, ← ih (List.Pairwise.of_cons h)]
    cases ls with
    | nil => simp [rows, splitWhere, allBlank]
    | cons next ls =>
        exact rows_append_of_endsLine (List.rel_of_pairwise_cons h List.mem_cons_self) _

theorem rows_eq_flatMap_lines (t : Text) : rows t = (lines t).flatMap rows := by
  rw [← rows_flatten (pairwise_lines t), flatten_lines]

/-! ## Looking through lines -/

theorem rows_append_unifyLineEnds (x t : Text) : rows (x ++ unifyLineEnds t) = rows (x ++ t) := by
  fun_induction unifyLineEnds t generalizing x with
  | case1 => rfl
  | case2 t ih =>
    rw [rows_append_cons rfl, rows_append_cons rfl, rows_cons rfl]
    exact congrArg (rows x ++ ·) (ih [])
  | case3 c t _ ih =>
    by_cases hc : c = '\r'
    · rw [if_pos hc, hc, rows_append_cons rfl, rows_append_cons rfl]
      exact congrArg (rows x ++ ·) (ih [])
    · rw [if_neg hc]
      simpa using ih (x ++ [c])

theorem rows_unifyLineEnds (t : Text) : rows (unifyLineEnds t) = rows t :=
  rows_append_unifyLineEnds [] t

/-- What is looked for is found in the row of a line as well as in the line, and not in a blank
line. -/
structure Rowwise {α : Type} (f : Text → Option α) : Prop where
  of_blank : ∀ t, allBlank t = true → f t = none
  of_lineEnd : ∀ t c, isLineEnd c = true → f (t ++ [c]) = f t

theorem Rowwise.append {α : Type} {f : Text → Option α} (hf : Rowwise f) (x : Text) {e : Text}
    (he : LineEnd e) : f (x ++ e) = f x := by
  induction e generalizing x with
  | nil => rw [List.append_nil]
  | cons c e ih =>
    rw [← List.singleton_append, ← List.append_assoc,
      ih (x ++ [c]) fun d hd => he d (List.mem_cons_of_mem c hd)]
    exact hf.of_lineEnd x c (he c List.mem_cons_self)

theorem isBlank_of_isLineEnd {c : Char} (h : isLineEnd c = true) : isBlank c = true := by
  simp only [isLineEnd, Bool.or_eq_true, decide_eq_true_eq] at h
  rcases h with rfl | rfl <;> decide

theorem rows_line {x e : Text} (hx : Unbroken x) (he : LineEnd e) :
    rows (x ++ e) = if allBlank x then [] else [x] := by
  rw [← rows_of_unbroken hx]
  cases e with
  | nil => rw [List.append_nil]
  | cons c e =>
    have hrest : rows e = [] := by
      refine rows_eq_nil (List.all_eq_true.mpr fun d hd => ?_)
      exact isBlank_of_isLineEnd (he d (List.mem_cons_of_mem c hd))
    rw [rows_append_cons (he c List.mem_cons_self), hrest, List.append_nil]

/-- A row of a line is the line without its line end. -/
theorem exists_of_mem_rows {t line row : Text} (hline : line ∈ lines t) (hrow : row ∈ rows line) :
    ∃ e, line = row ++ e ∧ LineEnd e := by
  obtain ⟨x, e, rfl, hx, he⟩ := exists_of_mem_lines hline
  rw [rows_line hx he] at hrow
  split at hrow
  · simp at hrow
  · obtain rfl := List.mem_singleton.mp hrow
    exact ⟨e, rfl, he⟩

theorem findSome?_flatMap_rows {α : Type} {f : Text → Option α} {ls : List Text}
    (h : ∀ line ∈ ls, f line = (rows line).findSome? f) :
    ls.findSome? f = (ls.flatMap rows).findSome? f := by
  induction ls with
  | nil => rfl
  | cons line ls ih =>
    rw [List.findSome?_cons, List.flatMap_cons, List.findSome?_append, ← h line List.mem_cons_self,
      ← ih fun other hother => h other (List.mem_cons_of_mem line hother)]
    cases f line <;> rfl

/-- To look through the lines of a text is to look through its rows. -/
theorem findSome?_lines {α : Type} {f : Text → Option α} (hf : Rowwise f) (t : Text) :
    (lines t).findSome? f = (rows t).findSome? f := by
  have hline : ∀ line ∈ lines t, f line = (rows line).findSome? f := by
    intro line hline
    obtain ⟨x, e, rfl, hx, he⟩ := exists_of_mem_lines hline
    rw [hf.append x he, rows_line hx he]
    split <;> rename_i hblank
    · exact hf.of_blank x hblank
    · simp
  rw [rows_eq_flatMap_lines]
  exact findSome?_flatMap_rows hline

theorem findSome?_lines_unifyLineEnds {α : Type} {f : Text → Option α} (hf : Rowwise f) (t : Text) :
    (lines (unifyLineEnds t)).findSome? f = (rows t).findSome? f := by
  rw [findSome?_lines hf, rows_unifyLineEnds]

/-- The first line of some kind has this text before its line end. -/
def FirstLine (kind : Text → Prop) (t text : Text) : Prop :=
  ∃ front lineEnd back, lines t = front ++ (text ++ lineEnd) :: back ∧ LineEnd lineEnd ∧
    ∀ line ∈ front, ¬ kind line

theorem FirstLine.findSome? {α : Type} {f : Text → Option α} {kind : Text → Prop} {t text : Text}
    {v : α} (h : FirstLine kind t text) (hf : Rowwise f)
    (hnone : ∀ line, ¬ kind line → f line = none) (hsome : f text = some v) :
    (rows t).findSome? f = some v := by
  obtain ⟨front, lineEnd, back, hlines, hend, hfront⟩ := h
  have hpassed : front.findSome? f = none := by
    rw [List.findSome?_eq_none_iff]
    exact fun line hline => hnone line (hfront line hline)
  rw [← findSome?_lines hf, hlines, List.findSome?_append, hpassed, List.findSome?_cons,
    hf.append text hend, hsome]
  rfl

/-! ## Putting texts together -/

/-- What is put at the end of a text joins its last row only. -/
theorem exists_last_row (t : Text) :
    ∃ front u, Unbroken u ∧ ∀ x, rows (t ++ x) = rows front ++ rows (u ++ x) := by
  induction t using List.reverseRecOn with
  | nil => exact ⟨[], [], by simp [Unbroken], fun x => by simp [rows, splitWhere, allBlank]⟩
  | append_singleton t c ih =>
    by_cases hc : isLineEnd c = true
    · refine ⟨t, [], by simp [Unbroken], fun x => ?_⟩
      rw [List.append_assoc, List.singleton_append, rows_append_cons hc, List.nil_append]
    · obtain ⟨front, u, hu, hrows⟩ := ih
      refine ⟨front, u ++ [c], ?_, fun x => ?_⟩
      · intro d hd
        rcases List.mem_append.mp hd with hd | hd
        · exact hu d hd
        · simpa [List.mem_singleton.mp hd] using hc
      · rw [List.append_assoc, hrows, List.append_assoc]

/-- What is put before a text joins its first row only. -/
theorem exists_first_row (t : Text) :
    ∃ w back, Unbroken w ∧ ∀ x, rows (x ++ t) = rows (x ++ w) ++ rows back := by
  induction t with
  | nil => exact ⟨[], [], by simp [Unbroken], fun x => by simp [rows, splitWhere, allBlank]⟩
  | cons c t ih =>
    by_cases hc : isLineEnd c = true
    · refine ⟨[], t, by simp [Unbroken], fun x => ?_⟩
      rw [rows_append_cons hc, List.append_nil]
    · obtain ⟨w, back, hw, hrows⟩ := ih
      refine ⟨c :: w, back, ?_, fun x => ?_⟩
      · intro d hd
        rcases List.mem_cons.mp hd with rfl | hd
        · simpa using hc
        · exact hw d hd
      · have h := hrows (x ++ [c])
        simpa using h

/-- A piece of a text is part of one of its rows. -/
theorem exists_row_around {piece : Text} (hpiece : IsPiece piece) (before rest : Text) :
    ∃ front u w back, rows (before ++ piece ++ rest) = front ++ (u ++ piece ++ w) :: back ∧
      Unbroken u ∧ Unbroken w ∧
      (∀ x, rows (before ++ x) = front ++ rows (u ++ x)) ∧
      ∀ x, rows (x ++ rest) = rows (x ++ w) ++ back := by
  obtain ⟨front, u, hu, hbefore⟩ := exists_last_row before
  obtain ⟨w, back, hw, hrest⟩ := exists_first_row rest
  refine ⟨rows front, u, w, rows back, ?_, hu, hw, hbefore, hrest⟩
  rw [List.append_assoc, hbefore, ← List.append_assoc, hrest, rows_of_isPiece (hpiece.append hu hw),
    List.singleton_append]

/-! ## Replacement -/

/-- Replacement of a piece of a line by a piece of a line goes on within rows. A row may become
blank. -/
theorem rows_replaceAll {piece new : Text} (hpiece : IsPiece piece) (hnew : Unbroken new)
    (t : Text) :
    rows (replaceAll t piece new) =
      ((rows t).map (replaceAll · piece new)).filter fun row => !allBlank row := by
  have hp := hpiece.ne_nil
  have hrow : ∀ a, Unbroken a →
      rows (replaceAll a piece new) =
        ((rows a).map (replaceAll · piece new)).filter fun row => !allBlank row := by
    intro a ha
    have ha' : Unbroken (replaceAll a piece new) := by
      intro c hc
      rcases mem_or_mem_of_mem_replaceAll hp hc with hc | hc
      · exact ha c hc
      · exact hnew c hc
    by_cases hblank : allBlank a = true
    · rw [ replaceAll_of_not_infix hp (hpiece.not_infix hblank), rows_eq_nil hblank]
      rfl
    · rw [rows_of_unbroken ha', rows_of_unbroken ha, if_neg hblank]
      cases hnow : allBlank (replaceAll a piece new) <;> simp [hnow]
  induction hn : t.length using Nat.strong_induction_on generalizing t with
  | _ n ih =>
    by_cases ht : Unbroken t
    · exact hrow t ht
    · obtain ⟨c, hc, hend⟩ : ∃ c ∈ t, isLineEnd c = true := by simpa [Unbroken] using ht
      obtain ⟨a, b, rfl⟩ := List.append_of_mem hc
      have hcut : c ∉ piece := hpiece.unbroken.notMem hend
      have hlen : a.length < n ∧ b.length < n := by
        simp only [List.length_append, List.length_cons] at hn
        omega
      rw [replaceAll_append_cons hp hcut, rows_append_cons hend, rows_append_cons hend,
        ih _ hlen.1 a rfl, ih _ hlen.2 b rfl, List.map_append, List.filter_append]

end NlsBundle.Text
