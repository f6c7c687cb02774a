import NlsBundle.MessageClass
import NlsBundle.Proofs.Text.Row

/-!
# Blank lines

The lines of a text are seen as those that are not blank, each with the gap before it, and the gap
at the end. Cleaning works on each gap on its own. Proved here:

* `feedJoined_iff`: a text is divided at its line feeds in one way only;
* `exists_spacing`: all lines can be seen as lines with gaps;
* `dropSuperfluous_gap`, `dropSuperfluous_tail`: what is kept of a gap of which `n` lines have been
  read already;
* `dropSuperfluous_lines`: what is kept of all lines;
* `cleanBlankLines_cuts_gaps`: so cleaning shortens the gaps of a text and does nothing else;
* `lines_cut_cut_eq_iff`, `lines_cut_cut_cut`: a gap at the end of three or more lines is shortened
  twice, and none three times;
* `cleanBlankLines_settled_iff`: so a clean text is kept exactly if there were at most two blank
  lines at the end before it was cleaned.
-/

namespace NlsBundle.MessageClass

open Text

/-- The text is these lines with line feeds between them, and there are no other line feeds in
it. -/
structure FeedJoined (t : Text) (ls : List Text) : Prop where
  ne_nil : ls ≠ []
  notMem : ∀ line ∈ ls, '\n' ∉ line
  eq_join : t = join ['\n'] ls

theorem feedJoined_iff {t : Text} {ls : List Text} :
    FeedJoined t ls ↔ splitWhere (· = '\n') t = ls := by
  constructor
  · intro h
    rw [h.eq_join, splitWhere_join h.ne_nil h.notMem]
  · rintro rfl
    refine ⟨splitWhere_ne_nil _ t, fun line hline hfeed => ?_, (join_splitWhere '\n' t).symm⟩
    simpa using not_separator_of_mem_splitWhere hline '\n' hfeed

/-! ## Lines and gaps -/

/-- A line that is not blank, and all blank lines directly before it. -/
@[ext] structure SpacedLine where
  gap : List Text
  line : Text
  gap_blank : ∀ x ∈ gap, allBlank x = true
  line_solid : allBlank line = false

/-- Lines in the way they are spaced: those that are not blank, each with the gap before it, and the
gap at the end. The gaps that are not empty are the maximal runs of blank lines; the gap at the end
is the run that the last line belongs to. -/
structure Spacing where
  spaced : List SpacedLine
  tail : List Text
  tail_blank : ∀ x ∈ tail, allBlank x = true

namespace Spacing

/-- Puts a line with its gap before all others. -/
def cons (p : SpacedLine) (s : Spacing) : Spacing := { s with spaced := p :: s.spaced }

def lines (s : Spacing) : List Text := (s.spaced.flatMap fun p => p.gap ++ [p.line]) ++ s.tail

@[simp] theorem lines_cons (p : SpacedLine) (s : Spacing) :
    (s.cons p).lines = p.gap ++ p.line :: s.lines := by
  simp [lines, cons]

@[elab_as_elim] theorem induction {motive : Spacing → Prop} (tail : ∀ tail h, motive ⟨[], tail, h⟩)
    (cons : ∀ p s, motive s → motive (cons p s)) (s : Spacing) : motive s := by
  obtain ⟨spaced, last, hlast⟩ := s
  induction spaced with
  | nil => exact tail last hlast
  | cons p spaced ih => exact cons p _ ih

end Spacing

theorem exists_spacing (ls : List Text) : ∃ s : Spacing, ls = s.lines := by
  induction ls with
  | nil => exact ⟨⟨[], [], by simp⟩, rfl⟩
  | cons line ls ih =>
    obtain ⟨s, rfl⟩ := ih
    cases hline : allBlank line with
    | false => exact ⟨s.cons ⟨[], line, by simp, hline⟩, by simp⟩
    | true =>
      -- a blank line makes the first gap wider
      induction s using Spacing.induction with
      | tail tail htail => exact ⟨⟨[], line :: tail, List.forall_mem_cons.mpr ⟨hline, htail⟩⟩, rfl⟩
      | cons p s _ =>
        have hgap : ∀ x ∈ line :: p.gap, allBlank x = true :=
          List.forall_mem_cons.mpr ⟨hline, p.gap_blank⟩
        exact ⟨s.cons ⟨line :: p.gap, p.line, hgap, p.line_solid⟩, by simp⟩

/-- Of a gap before a line the first two lines are kept. -/
def SpacedLine.cut (p : SpacedLine) : SpacedLine where
  gap := p.gap.take (min p.gap.length 2)
  line := p.line
  gap_blank x hx := p.gap_blank x (List.mem_of_mem_take hx)
  line_solid := p.line_solid

/-- Of the gap at the end the first line is kept, and the second one too if there are three or
more. -/
def Spacing.cut (s : Spacing) : Spacing where
  spaced := s.spaced.map SpacedLine.cut
  tail := s.tail.take (if s.tail.length ≤ 2 then 1 else 2)
  tail_blank x hx := s.tail_blank x (List.mem_of_mem_take hx)

theorem SpacedLine.gap_cut (p : SpacedLine) : p.cut.gap = p.gap.take 2 := by
  show p.gap.take (min p.gap.length 2) = p.gap.take 2
  rw [Nat.min_comm, ← List.take_eq_take_min]

@[simp] theorem SpacedLine.line_cut (p : SpacedLine) : p.cut.line = p.line := rfl

theorem Spacing.cut_cons (p : SpacedLine) (s : Spacing) : (s.cons p).cut = s.cut.cons p.cut := rfl

/-! ## What is kept -/

section

variable {line : Text} {gap rest : List Text}

/-- After a line that is not blank it makes no difference what came before that line. -/
theorem dropSuperfluous_false (b : Bool) (ls : List Text) :
    dropSuperfluous b false ls = dropSuperfluous false false ls := by
  cases ls with
  | nil => rfl
  | cons line ls => cases ls <;> simp [dropSuperfluous]

theorem dropSuperfluous_cons_solid (hline : allBlank line = false) (b₂ b₁ : Bool)
    (rest : List Text) :
    dropSuperfluous b₂ b₁ (line :: rest) = line :: dropSuperfluous false false rest := by
  cases rest with
  | nil => simp [dropSuperfluous, hline]
  | cons next rest => simp [dropSuperfluous, hline, dropSuperfluous_false b₁]

/-- A blank line that is not the last one is kept if there are fewer than two blank lines before
it. -/
theorem dropSuperfluous_cons_blank (hline : allBlank line = true) (n : Nat) (hrest : rest ≠ []) :
    dropSuperfluous (2 ≤ n) (1 ≤ n) (line :: rest) =
      [line].take (2 - n) ++ dropSuperfluous (2 ≤ n + 1) (1 ≤ n + 1) rest := by
  cases rest with
  | nil => exact absurd rfl hrest
  | cons next rest => rcases n with _ | _ | n <;> simp [dropSuperfluous, hline]

theorem take_cons_eq (line : Text) (ls : List Text) (n : Nat) :
    [line].take (2 - n) ++ ls.take (2 - (n + 1)) = (line :: ls).take (2 - n) := by
  rcases n with _ | _ | n <;> simp

theorem dropSuperfluous_gap (hgap : ∀ x ∈ gap, allBlank x = true) (n : Nat) (hrest : rest ≠ []) :
    dropSuperfluous (2 ≤ n) (1 ≤ n) (gap ++ rest) =
      gap.take (2 - n) ++ dropSuperfluous (2 ≤ n + gap.length) (1 ≤ n + gap.length) rest := by
  induction gap generalizing n with
  | nil => simp
  | cons line gap ih =>
    obtain ⟨hline, hgap⟩ := List.forall_mem_cons.mp hgap
    have hne : gap ++ rest ≠ [] := by simp [hrest]
    have hcount : n + 1 + gap.length = n + (line :: gap).length := by
      rw [List.length_cons]
      omega
    rw [List.cons_append, dropSuperfluous_cons_blank hline n hne, ih hgap (n + 1),
      ← List.append_assoc, take_cons_eq, hcount]

/-- At the end a gap of two lines is shortened too. -/
theorem dropSuperfluous_tail {tail : List Text} (htail : ∀ x ∈ tail, allBlank x = true) (n : Nat) :
    dropSuperfluous (2 ≤ n) (1 ≤ n) tail =
      tail.take (if n + tail.length ≤ 2 then 1 - n else 2 - n) := by
  induction tail generalizing n with
  | nil => simp [dropSuperfluous]
  | cons line tail ih =>
    obtain ⟨hline, htail⟩ := List.forall_mem_cons.mp htail
    cases tail with
    | nil => rcases n with _ | _ | n <;> simp [dropSuperfluous, hline]
    | cons next tail =>
      have hcount : n + 1 + (next :: tail).length = n + (line :: next :: tail).length := by
        rw [List.length_cons (a := line)]
        omega
      rw [dropSuperfluous_cons_blank hline n (List.cons_ne_nil next tail), ih htail (n + 1), hcount]
      by_cases hshort : n + (line :: next :: tail).length ≤ 2
      · obtain rfl : n = 0 := by
          simp only [List.length_cons] at hshort
          omega
        rw [if_pos hshort, if_pos hshort]
        rfl
      · rw [if_neg hshort, if_neg hshort, take_cons_eq]

end

theorem dropSuperfluous_lines (s : Spacing) :
    dropSuperfluous false false s.lines = s.cut.lines := by
  induction s using Spacing.induction with
  | tail tail htail =>
    have h := dropSuperfluous_tail htail 0
    simpa [Spacing.lines, Spacing.cut] using h
  | cons p s ih =>
    have h := dropSuperfluous_gap p.gap_blank 0 (List.cons_ne_nil p.line s.lines)
    rw [dropSuperfluous_cons_solid p.line_solid, ih] at h
    rw [Spacing.lines_cons, Spacing.cut_cons, Spacing.lines_cons, SpacedLine.gap_cut]
    simpa using h

theorem sublist_dropSuperfluous (b₂ b₁ : Bool) (ls : List Text) :
    (dropSuperfluous b₂ b₁ ls).Sublist ls := by
  fun_induction dropSuperfluous b₂ b₁ ls with
  | case1 => exact List.Sublist.refl _
  | case2 b₂ b₁ line _ => exact List.nil_sublist _
  | case3 b₂ b₁ line _ => exact List.Sublist.refl _
  | case4 b₂ b₁ line next rest kept _ ih => exact ih.trans (List.sublist_cons_self line _)
  | case5 b₂ b₁ line next rest kept _ ih => exact ih.cons_cons line

theorem dropSuperfluous_ne_nil {ls : List Text} (h : ls ≠ []) :
    dropSuperfluous false false ls ≠ [] := by
  cases ls with
  | nil => exact absurd rfl h
  | cons line ls => cases ls <;> simp [dropSuperfluous]

/-- The lines of a clean text are the lines that were kept. -/
theorem feedJoined_cleanBlankLines {content : Text} {ls : List Text} (h : FeedJoined content ls) :
    FeedJoined (cleanBlankLines content) (dropSuperfluous false false ls) where
  ne_nil := dropSuperfluous_ne_nil h.ne_nil
  notMem line hline := h.notMem line ((sublist_dropSuperfluous false false ls).subset hline)
  eq_join := by rw [cleanBlankLines, feedJoined_iff.mp h]

theorem FeedJoined.cut {content : Text} {s : Spacing} (h : FeedJoined content s.lines) :
    FeedJoined (cleanBlankLines content) s.cut.lines :=
  dropSuperfluous_lines s ▸ feedJoined_cleanBlankLines h

theorem exists_spacing_feedJoined (content : Text) : ∃ s : Spacing, FeedJoined content s.lines := by
  obtain ⟨s, hs⟩ := exists_spacing (splitWhere (· = '\n') content)
  exact ⟨s, feedJoined_iff.mpr hs⟩

theorem Spacing.tail_cut (s : Spacing) :
    s.cut.tail = s.tail.take (if s.tail.length ≤ 2 then 1 else 2) := rfl

theorem Spacing.length_tail_cut_le (s : Spacing) : s.cut.tail.length ≤ 2 := by
  rw [Spacing.tail_cut, List.length_take]
  split <;> omega

/-- A line that is not blank comes after at most two blank lines. -/
theorem Spacing.not_three_blank (s : Spacing) {front back : List Text} {x y z : Text}
    (h : s.cut.lines = front ++ x :: y :: z :: back) :
    ¬ (allBlank x = true ∧ allBlank y = true ∧ allBlank z = true) := by
  rintro ⟨hx, hy, hz⟩
  induction s using Spacing.induction generalizing front with
  | tail tail htail =>
    have hlen := congrArg List.length h
    have hle := Spacing.length_tail_cut_le ⟨[], tail, htail⟩
    simp only [Spacing.lines, Spacing.cut, List.map_nil, List.flatMap_nil, List.nil_append,
      List.length_append, List.length_cons] at hlen hle
    omega
  | cons p s ih =>
    rw [Spacing.cut_cons, Spacing.lines_cons, SpacedLine.line_cut, List.append_eq_append_iff] at h
    have hne : ∀ w, allBlank w = true → w ≠ p.line := by
      rintro w hw rfl
      have hsolid := p.line_solid
      rw [hw] at hsolid
      cases hsolid
    rcases h with ⟨u, _, hu⟩ | ⟨u, hgap, hu⟩
    · cases u with
      | nil => exact hne x hx (List.cons.inj hu).1.symm
      | cons c u => exact ih (List.cons.inj hu).2
    · -- the gap has at most two lines, so the line that is not blank is one of the three
      have hle : u.length ≤ 2 := by
        have hlen := congrArg List.length hgap
        rw [SpacedLine.gap_cut, List.length_take, List.length_append] at hlen
        omega
      rcases u with _ | ⟨a, _ | ⟨b, _ | ⟨c, u⟩⟩⟩
      · exact hne x hx (List.cons.inj hu).1
      · exact hne y hy (List.cons.inj (List.cons.inj hu).2).1
      · exact hne z hz (List.cons.inj (List.cons.inj (List.cons.inj hu).2).2).1
      · simp only [List.length_cons] at hle
        omega

/-- **Cleaning cuts the gaps of a text.** The lines between the line feeds of a text can be seen as
lines that are not blank with the gaps before them and the gap at the end. Cleaning keeps all lines
that are not blank, in order, the first two lines of each gap before such a line, and of the gap at
the end the first line, or the first two if there are three or more. So there are never three blank
lines in a row. -/
theorem cleanBlankLines_cuts_gaps (content : Text) :
    (∃ s : Spacing, FeedJoined content s.lines) ∧
    ∀ s : Spacing, FeedJoined content s.lines →
      FeedJoined (cleanBlankLines content) s.cut.lines ∧
      ∀ front x y z back, s.cut.lines = front ++ x :: y :: z :: back →
        ¬ (allBlank x = true ∧ allBlank y = true ∧ allBlank z = true) :=
  ⟨exists_spacing_feedJoined content, fun s hs => ⟨hs.cut, fun _ _ _ _ _ h => s.not_three_blank h⟩⟩

/-! ## Cleaning again -/

namespace Spacing

theorem spaced_cut_cut (s : Spacing) : s.cut.cut.spaced = s.cut.spaced := by
  have hcut : ∀ p : SpacedLine, p.cut.cut = p.cut := by
    intro p
    ext1
    · rw [SpacedLine.gap_cut, SpacedLine.gap_cut, List.take_take, Nat.min_self]
    · rfl
  show (s.spaced.map SpacedLine.cut).map SpacedLine.cut = s.spaced.map SpacedLine.cut
  rw [List.map_map]
  exact List.map_congr_left fun p _ => hcut p

theorem tail_cut_of_le {s : Spacing} (h : s.tail.length ≤ 2) : s.cut.tail = s.tail.take 1 := by
  rw [tail_cut, if_pos h]

theorem tail_cut_of_lt {s : Spacing} (h : 2 < s.tail.length) : s.cut.tail = s.tail.take 2 := by
  rw [tail_cut, if_neg (Nat.not_le.mpr h)]

/-- After the second time one line of the gap at the end is left, however long it was. -/
theorem tail_cut_cut (s : Spacing) : s.cut.cut.tail = s.tail.take 1 := by
  rw [tail_cut_of_le s.length_tail_cut_le]
  rcases Nat.lt_or_ge 2 s.tail.length with h | h
  · rw [tail_cut_of_lt h, List.take_take]
    rfl
  · rw [tail_cut_of_le h, List.take_take]
    rfl

theorem lines_cut_cut (s : Spacing) :
    s.cut.cut.lines = (s.cut.spaced.flatMap fun p => p.gap ++ [p.line]) ++ s.tail.take 1 := by
  rw [lines, spaced_cut_cut, tail_cut_cut]

theorem lines_cut_cut_cut (s : Spacing) : s.cut.cut.cut.lines = s.cut.cut.lines := by
  have htail : s.cut.tail.take 1 = s.tail.take 1 := by
    rw [← tail_cut_of_le s.length_tail_cut_le, tail_cut_cut]
  rw [lines_cut_cut s.cut, lines_cut_cut s, spaced_cut_cut, htail]

theorem lines_cut_of_lt {s : Spacing} (h : 2 < s.tail.length) :
    ∃ line, allBlank line = true ∧ s.cut.lines = s.cut.cut.lines ++ [line] := by
  obtain ⟨x, y, rest, htail⟩ : ∃ x y rest, s.tail = x :: y :: rest := by
    match s.tail, h with
    | x :: y :: rest, _ => exact ⟨x, y, rest, rfl⟩
  refine ⟨y, s.tail_blank y (by simp [htail]), ?_⟩
  rw [lines_cut_cut, lines, tail_cut_of_lt h, htail, List.append_assoc]
  rfl

theorem lines_cut_cut_eq_iff (s : Spacing) : s.cut.cut.lines = s.cut.lines ↔ s.tail.length ≤ 2 := by
  constructor
  · intro h
    refine Nat.le_of_not_lt fun hlt => ?_
    obtain ⟨line, _, hline⟩ := lines_cut_of_lt hlt
    simp [h] at hline
  · intro h
    rw [lines_cut_cut, lines, tail_cut_of_le h]

end Spacing

/-- **A clean text is kept as it is, unless too much was blank at its end.** Cleaning a text twice
gives the same as cleaning it once exactly if the gap at the end has at most two lines. If it has
more, the second time takes away one more blank line, the last one. The third time never changes
anything. -/
theorem cleanBlankLines_settled_iff (content : Text) :
    (∃ s : Spacing, FeedJoined content s.lines) ∧
    ∀ s : Spacing, FeedJoined content s.lines →
      (cleanBlankLines (cleanBlankLines content) = cleanBlankLines content ↔ s.tail.length ≤ 2) ∧
      (2 < s.tail.length → ∃ line, allBlank line = true ∧
        cleanBlankLines content = cleanBlankLines (cleanBlankLines content) ++ '\n' :: line) ∧
      cleanBlankLines (cleanBlankLines (cleanBlankLines content)) =
        cleanBlankLines (cleanBlankLines content) := by
  refine ⟨exists_spacing_feedJoined content, fun s hs => ?_⟩
  have honce := hs.cut
  have htwice := honce.cut
  refine ⟨⟨fun h => ?_, fun h => ?_⟩, fun h => ?_, ?_⟩
  · rw [h] at htwice
    exact s.lines_cut_cut_eq_iff.mp
      ((feedJoined_iff.mp htwice).symm.trans (feedJoined_iff.mp honce))
  · rw [htwice.eq_join, s.lines_cut_cut_eq_iff.mpr h, ← honce.eq_join]
  · obtain ⟨line, hblank, hline⟩ := Spacing.lines_cut_of_lt h
    refine ⟨line, hblank, ?_⟩
    calc cleanBlankLines content = join ['\n'] s.cut.lines := honce.eq_join
      _ = join ['\n'] s.cut.cut.lines ++ ['\n'] ++ line := by
        rw [hline, join_concat ['\n'] htwice.ne_nil]
      _ = cleanBlankLines (cleanBlankLines content) ++ '\n' :: line := by
        rw [← htwice.eq_join, List.append_assoc, List.singleton_append]
  · rw [htwice.cut.eq_join, s.lines_cut_cut_cut, ← htwice.eq_join]

/-- Of three blank lines at the end the first time takes away one, and the second time another
one. -/
theorem cleanBlankLines_not_settled :
    cleanBlankLines "a\n\n\n".toList = "a\n\n".toList ∧
    cleanBlankLines "a\n\n".toList = "a\n".toList ∧
    cleanBlankLines (cleanBlankLines "a\n\n\n".toList) ≠ cleanBlankLines "a\n\n\n".toList := by
  decide +kernel

end NlsBundle.MessageClass
