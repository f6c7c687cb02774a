import NlsBundle.Declaration
import NlsBundle.Proofs.Pattern.Gapped

/-!
# Declaration lines and the variables they name

Lines are selected by the characters that they have, and then read word by word. Proved here:

* `typeWord_infix_of_isDeclaration`: a line that is selected has the type somewhere;
* `exists_word_of_infix`: a piece of text without blanks is part of a word;
* `exists_variableName_iff`, `variableName_eq_noType_iff`: a line names a variable exactly if a word
  of it other than the last is the type, and lacks the type exactly if no word of it is the type.
-/

namespace NlsBundle

namespace Text

/-! ## Words -/

theorem exists_splitWhere_cons (isSeparator : Char → Bool) {piece : Text}
    (h : ∀ c ∈ piece, isSeparator c = false) (t : Text) :
    ∃ w rest, splitWhere isSeparator (piece ++ t) = (piece ++ w) :: rest := by
  induction piece with
  | nil =>
    cases hsplit : splitWhere isSeparator t with
    | nil => exact absurd hsplit (splitWhere_ne_nil isSeparator t)
    | cons w rest => exact ⟨w, rest, by rw [List.nil_append, hsplit, List.nil_append]⟩
  | cons c piece ih =>
    obtain ⟨w, rest, hsplit⟩ := ih fun d hd => h d (List.mem_cons_of_mem c hd)
    have hc := h c List.mem_cons_self
    exact ⟨w, rest, by simp [splitWhere, hc, hsplit]⟩

/-- A piece without separators is not divided. -/
theorem exists_splitWhere_of_infix (isSeparator : Char → Bool) {piece : Text}
    (h : ∀ c ∈ piece, isSeparator c = false) (a b : Text) :
    ∃ w ∈ splitWhere isSeparator (a ++ (piece ++ b)), piece <:+: w := by
  induction a with
  | nil =>
    obtain ⟨w, rest, hsplit⟩ := exists_splitWhere_cons isSeparator h b
    exact ⟨piece ++ w, by rw [List.nil_append, hsplit]; exact List.mem_cons_self,
      (List.prefix_append piece w).isInfix⟩
  | cons c a ih =>
    obtain ⟨w, hw, hin⟩ := ih
    rw [List.cons_append]
    by_cases hc : isSeparator c = true
    · exact ⟨w, by rw [splitWhere, if_pos hc]; exact List.mem_cons_of_mem [] hw, hin⟩
    · cases hsplit : splitWhere isSeparator (a ++ (piece ++ b)) with
      | nil => exact absurd hsplit (splitWhere_ne_nil isSeparator _)
      | cons first rest =>
        rw [hsplit] at hw
        have hnew : splitWhere isSeparator (c :: (a ++ (piece ++ b))) = (c :: first) :: rest := by
          simp [splitWhere, hc, hsplit]
        rw [hnew]
        rcases List.mem_cons.mp hw with rfl | hw
        · exact ⟨c :: w, List.mem_cons_self, hin.trans (List.suffix_cons c w).isInfix⟩
        · exact ⟨w, List.mem_cons_of_mem _ hw, hin⟩

theorem exists_word_of_infix {piece t : Text} (hne : piece ≠ [])
    (h : ∀ c ∈ piece, isBlank c = false) (hin : piece <:+: t) : ∃ w ∈ words t, piece <:+: w := by
  obtain ⟨a, b, rfl⟩ := hin
  rw [List.append_assoc]
  obtain ⟨w, hw, hpiece⟩ := exists_splitWhere_of_infix isBlank h a b
  refine ⟨w, List.mem_filter.mpr ⟨hw, ?_⟩, hpiece⟩
  have hwne : w ≠ [] := by
    rintro rfl
    exact hne (List.infix_nil.mp hpiece)
  simpa using hwne

end Text

namespace Declaration

/-! ## Selected lines -/

def typeWord : Text := "String".toList

def declarationWords : List Text := ["public".toList, "static".toList, typeWord]

theorem declarationPattern_eq :
    declarationPattern = .sequence (Pattern.gapped declarationWords) :=
  rfl

/-- A line that is selected has the type somewhere, as a word or as part of one. -/
theorem typeWord_infix_of_isDeclaration {line : Text} (h : isDeclaration line = true) :
    typeWord <:+: line := by
  rw [isDeclaration, Bool.and_eq_true, declarationPattern_eq] at h
  have hword : typeWord ∈ declarationWords := by decide
  exact (Pattern.inOrder_of_occursIn_gapped h.1).infix_of_mem hword

theorem typeWord_solid : ∀ c ∈ typeWord, Text.isBlank c = false := by
  have hany : typeWord.any Text.isBlank = false := by decide
  simpa using hany

theorem exists_word_of_isDeclaration {line : Text} (h : isDeclaration line = true) :
    ∃ w ∈ Text.words line, typeWord <:+: w :=
  Text.exists_word_of_infix (by decide) typeWord_solid (typeWord_infix_of_isDeclaration h)

/-! ## Named variables -/

theorem nameAfterType_cons_of_ne {w : Text} (h : typeWord ≠ w) (ws : List Text) :
    nameAfterType (w :: ws) = nameAfterType ws := by
  have hw : w ≠ "String".toList := fun hw => h hw.symm
  simp only [nameAfterType, if_neg hw]

theorem nameAfterType_of_notMem {ws : List Text} (h : typeWord ∉ ws) :
    nameAfterType ws = .error .noType := by
  induction ws with
  | nil => rfl
  | cons w ws ih =>
    rw [List.mem_cons, not_or] at h
    rw [nameAfterType_cons_of_ne h.1, ih h.2]

theorem nameAfterType_append {before : List Text} (h : typeWord ∉ before) (after : List Text) :
    nameAfterType (before ++ typeWord :: after) =
      match after with
      | [] => .error .noName
      | name :: _ => .ok (Text.without name ';') := by
  induction before with
  | nil => rfl
  | cons w before ih =>
    rw [List.mem_cons, not_or] at h
    rw [List.cons_append, nameAfterType_cons_of_ne h.1, ih h.2]

/-- A word of the line is the type, and it is not the last one. -/
def NamesVariable (line : Text) : Prop := typeWord ∈ (Text.words line).dropLast

instance : DecidablePred NamesVariable := fun line =>
  inferInstanceAs (Decidable (typeWord ∈ (Text.words line).dropLast))

/-- A line has no word that is the type, or has it as the last word only, or names a variable after
it. -/
theorem variableName_cases (line : Text) :
    (typeWord ∉ Text.words line ∧ variableName line = .error .noType) ∨
      (typeWord ∈ Text.words line ∧ ¬ NamesVariable line ∧ variableName line = .error .noName) ∨
      (typeWord ∈ Text.words line ∧ NamesVariable line ∧ ∃ name, variableName line = .ok name) := by
  unfold variableName NamesVariable
  by_cases hmem : typeWord ∈ Text.words line
  · -- the first word that is the type decides
    obtain ⟨before, after, hwords, hfirst⟩ := List.eq_append_cons_of_mem hmem
    refine Or.inr ?_
    rw [hwords, nameAfterType_append hfirst]
    cases after with
    | nil => exact Or.inl ⟨by simp, by simpa using hfirst, rfl⟩
    | cons name after => exact Or.inr ⟨by simp, by simp [List.dropLast_append_of_ne_nil], _, rfl⟩
  · exact Or.inl ⟨hmem, nameAfterType_of_notMem hmem⟩

theorem exists_variableName_iff {line : Text} :
    (∃ name, variableName line = .ok name) ↔ NamesVariable line := by
  rcases variableName_cases line with ⟨hno, h⟩ | ⟨_, hno, h⟩ | ⟨_, hyes, h⟩
  · have hnames : ¬ NamesVariable line := fun hn => hno (List.mem_of_mem_dropLast hn)
    simp [h, hnames]
  · simp [h, hno]
  · exact iff_of_true h hyes

theorem variableName_eq_noType_iff {line : Text} :
    variableName line = .error .noType ↔ typeWord ∉ Text.words line := by
  rcases variableName_cases line with ⟨hno, h⟩ | ⟨hyes, _, h⟩ | ⟨hyes, _, name, h⟩
  · exact iff_of_true h hno
  · simp [h, hyes]
  · simp [h, hyes]

end Declaration

end NlsBundle
