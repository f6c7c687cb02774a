import NlsBundle.Proofs.Name
import NlsBundle.Proofs.Usage.Scan

/-!
# The texts of imports

How imports are put together from words, names and the characters between them, which characters
they lack (`notMem_importFront`, `star_notMem_variableImport`), and that their patterns stand for
themselves (`variableImportPattern_eq_literal`, `starImportPattern_eq_literal`), for names above all
(`variableImportPattern_eq`, `starImportPattern_eq`).
-/

namespace NlsBundle.Usage

/-! ## Words and names -/

/-- What every static import begins with. -/
def staticKeyword : Text := "import static ".toList

theorem mark?_staticKeyword : ∀ c ∈ staticKeyword, Pattern.mark? c = none := by
  have hall : staticKeyword.all (fun c => (Pattern.mark? c).isNone) = true := by decide
  simpa only [List.all_eq_true, Option.isNone_iff_eq_none] using hall

theorem variableImport_eq {r : Rule} (hr : r.WellNamed) :
    variableImport r =
      staticKeyword ++ r.package ++ '.' :: r.className ++ '.' :: r.variableName := by
  change staticKeyword ++ r.package ++ '.' :: r.usage = _
  rw [hr.usage_eq]
  simp only [List.append_assoc, List.cons_append]

theorem starImport_eq (r : Rule) :
    starImport r = staticKeyword ++ r.package ++ '.' :: r.className ++ ['.', '*'] := rfl

theorem staticKeyword_prefix_variableImport {r : Rule} (hr : r.WellNamed) :
    staticKeyword <+: variableImport r := by
  rw [variableImport_eq hr, List.append_assoc, List.append_assoc]
  exact List.prefix_append _ _

theorem staticKeyword_prefix_starImport (r : Rule) : staticKeyword <+: starImport r := by
  rw [starImport_eq, List.append_assoc, List.append_assoc]
  exact List.prefix_append _ _

/-- What stands before the imported variable, or before the star, in a static import. -/
def importFront (r : Rule) : Text := staticKeyword ++ r.package ++ '.' :: (r.className ++ ['.'])

theorem variableImport_eq_front {r : Rule} (hr : r.WellNamed) :
    variableImport r = importFront r ++ r.variableName := by
  rw [variableImport_eq hr, importFront]
  simp

theorem starImport_eq_front (r : Rule) : starImport r = importFront r ++ ['*'] := by
  rw [starImport_eq, importFront]
  simp

/-- The word that every import begins with. -/
def importWord : Text := "import".toList

theorem importWord_prefix_staticKeyword : importWord <+: staticKeyword := by decide

theorem classImport_eq (r : Rule) :
    classImport r = importWord ++ ' ' :: (r.package ++ '.' :: r.className) := by
  have hkeyword : "import ".toList = importWord ++ [' '] := by decide
  calc classImport r
      = (importWord ++ [' ']) ++ r.package ++ '.' :: r.className :=
        congrArg (fun k => k ++ r.package ++ '.' :: r.className) hkeyword
    _ = importWord ++ ' ' :: (r.package ++ '.' :: r.className) := by
        simp only [List.append_assoc, List.cons_append, List.nil_append]

/-! ## Characters -/

theorem notMem_importFront {r : Rule} (hr : r.WellNamed) {c : Char} (hc : isNameChar c = false)
    (hd : c ≠ '.') (hs : c ∉ staticKeyword) : c ∉ importFront r := by
  simp [importFront, hs, hr.package.notMem hc hd, hr.className.notMem hc, hd]

theorem space_mem_variableImport {r : Rule} (hr : r.WellNamed) : ' ' ∈ variableImport r :=
  (staticKeyword_prefix_variableImport hr).subset (by decide)

theorem star_notMem_variableImport {r : Rule} (hr : r.WellNamed) : '*' ∉ variableImport r := by
  rw [variableImport_eq_front hr, List.mem_append, not_or]
  exact ⟨notMem_importFront hr (by decide) (by decide) (by decide),
    hr.variableName.notMem (by decide)⟩

theorem notMem_usage {r : Rule} (hr : r.WellNamed) {c : Char} (hc : isNameChar c = false)
    (hd : c ≠ '.') :
    c ∉ r.usage := by
  rw [hr.usage_eq]
  simp [hr.className.notMem hc, hr.variableName.notMem hc, hd]

/-! ## Patterns -/

theorem pattern_eq_literal {special : List Char} (hs : ∀ c ∈ special, c = '.' ∨ c = '*') {t : Text}
    (ht : ∀ c ∈ t, c ∈ special ∨ Pattern.mark? c = none) :
    pattern (escapeChars special t) = .ok (.literal t) := by
  rw [pattern, Pattern.parse_escapeChars hs ht]
  rfl

theorem variableImportPattern_eq_literal {r : Rule}
    (hpackage : ∀ c ∈ r.package, c = '.' ∨ Pattern.mark? c = none)
    (husage : ∀ c ∈ r.usage, c = '.' ∨ Pattern.mark? c = none) :
    variableImportPattern r = .ok (.literal (variableImport r)) := by
  refine pattern_eq_literal (by simp) ?_
  rw [show variableImport r = staticKeyword ++ r.package ++ '.' :: r.usage from rfl]
  intro c hc
  rw [List.mem_singleton]
  simp only [List.mem_append, List.mem_cons] at hc
  rcases hc with (hk | hp) | rfl | hu
  · exact Or.inr (mark?_staticKeyword c hk)
  · exact hpackage c hp
  · exact Or.inl rfl
  · exact husage c hu

theorem starImportPattern_eq_literal {r : Rule}
    (hpackage : ∀ c ∈ r.package, c = '.' ∨ Pattern.mark? c = none)
    (hclass : ∀ c ∈ r.className, c = '.' ∨ Pattern.mark? c = none) :
    starImportPattern r = .ok (.literal (starImport r)) := by
  refine pattern_eq_literal (by simp) ?_
  rw [starImport_eq]
  intro c hc
  simp only [List.mem_append, List.mem_cons, List.not_mem_nil, or_false] at hc ⊢
  rcases hc with ((hk | hp) | rfl | hn) | hend
  · exact Or.inr (mark?_staticKeyword c hk)
  · exact (hpackage c hp).imp_left Or.inl
  · exact Or.inl (Or.inl rfl)
  · exact (hclass c hn).imp_left Or.inl
  · exact Or.inl hend

theorem mark?_of_package {r : Rule} (hr : r.WellNamed) :
    ∀ c ∈ r.package, c = '.' ∨ Pattern.mark? c = none :=
  fun c hc => (hr.package.eq_dot_or c hc).imp_right mark?_eq_none_of_isNameChar

theorem variableImportPattern_eq {r : Rule} (hr : r.WellNamed) :
    variableImportPattern r = .ok (.literal (variableImport r)) := by
  refine variableImportPattern_eq_literal (mark?_of_package hr) ?_
  rw [hr.usage_eq]
  intro c hc
  rcases List.mem_append.mp hc with hn | hv
  · exact Or.inr (hr.className.mark?_eq_none c hn)
  · exact (List.mem_cons.mp hv).imp_right (hr.variableName.mark?_eq_none c)

theorem starImportPattern_eq {r : Rule} (hr : r.WellNamed) :
    starImportPattern r = .ok (.literal (starImport r)) :=
  starImportPattern_eq_literal (mark?_of_package hr) fun c hc =>
    Or.inr (hr.className.mark?_eq_none c hc)

theorem occursIn_eq_contains (piece t : Text) :
    (Pattern.literal piece).occursIn t = Text.contains t piece := by
  rw [Bool.eq_iff_iff, Pattern.occursIn_literal, Text.contains_iff]

end NlsBundle.Usage
