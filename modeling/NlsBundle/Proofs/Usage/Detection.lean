import NlsBundle.Proofs.Usage.Import
import NlsBundle.Proofs.Usage.Splice

/-!
# Imports are found where they are replaced

An import is searched for by a pattern and replaced as a text. For names without metacharacters,
dots apart, the two agree. Proved here:

* `firstOccurrence_of_frontFree`: an occurrence before which none begins is the first;
* `finds_literal`: a pattern that stands for itself is found exactly if its text occurs, and at the
  first occurrence;
* `FirstOccurrence.replaceAll_eq`: replacement begins with that occurrence;
* `replaces_of_occursIn`: so where a pattern is found, the replacement of its text is not idle;
* `import_steps_replace`: both for the import of a variable and for the import of everything.
-/

namespace NlsBundle

namespace Text

variable {piece new t before rest : Text}

/-! ## First occurrences -/

/-- The text is divided at an occurrence of the piece, and none begins further to the left. -/
structure FirstOccurrence (piece t before rest : Text) : Prop where
  text_eq : t = before ++ piece ++ rest
  first : ∀ a b, t = a ++ piece ++ b → before.length ≤ a.length

theorem firstOccurrence_of_frontFree (h : FrontFree (piece <+: ·) before (piece ++ rest)) :
    FirstOccurrence piece (before ++ piece ++ rest) before rest := by
  refine ⟨rfl, ?_⟩
  intro a b hab
  by_contra hlt
  -- an occurrence that is further to the left begins within `before`
  rw [List.append_assoc, List.append_assoc] at hab
  obtain ⟨z, hbefore, hz⟩ : ∃ z, before = a ++ z ∧ piece ++ b = z ++ (piece ++ rest) := by
    rcases List.append_eq_append_iff.mp hab with ⟨z, ha, _⟩ | hsplit
    · rw [ha, List.length_append] at hlt
      omega
    · exact hsplit
  have hne : z ≠ [] := by
    rintro rfl
    rw [hbefore, List.append_nil] at hlt
    omega
  exact h a z hbefore hne ⟨b, hz⟩

theorem FirstOccurrence.frontFree (h : FirstOccurrence piece t before rest) :
    FrontFree (piece <+: ·) before (piece ++ rest) := by
  rintro a z hbefore hne ⟨b, hb⟩
  have hle := h.first a b (by
    rw [h.text_eq, hbefore, List.append_assoc, List.append_assoc, ← hb, List.append_assoc])
  have hpos : 0 < z.length := List.length_pos_of_ne_nil hne
  rw [hbefore, List.length_append] at hle
  omega

theorem FirstOccurrence.replaceAll_eq (hp : piece ≠ []) (h : FirstOccurrence piece t before rest) :
    replaceAll t piece new = before ++ new ++ replaceAll rest piece new := by
  rw [h.text_eq, List.append_assoc, replaceAll_append hp h.frontFree, replaceAll_piece_append hp,
    List.append_assoc]

/-- The second text is the first one with `new` in place of an occurrence of the piece, the first
one, and of others after it. -/
def Replaces (piece new t u : Text) : Prop :=
  ∃ before rest, FirstOccurrence piece t before rest ∧
    u = before ++ new ++ replaceAll rest piece new

end Text

/-! ## Searching for a text -/

namespace Pattern

open Text

/-- A search for the pattern is a search for the text: there is a match exactly if the text occurs,
and the match is its first occurrence. -/
structure Finds (p : Pattern) (piece : Text) : Prop where
  isSome_iff : ∀ t, (p.search? t 0).isSome = true ↔ piece <:+: t
  first : ∀ t m, p.search? t 0 = some m →
    ∃ before rest, FirstOccurrence piece t before rest ∧
      m = ⟨before.length, before.length + piece.length⟩

theorem finds_literal (piece : Text) : Finds (literal piece) piece where
  isSome_iff := occursIn_literal piece
  first t m hm := by
    rcases search?_cases (fits_literal piece) [] t with
      ⟨hnone, _⟩ | ⟨before, b, rfl, ⟨rest, rfl⟩, hfree, hsome⟩
    · exact absurd (hm.symm.trans hnone) (by simp)
    · refine ⟨before, rest, ?_, ?_⟩
      · rw [← List.append_assoc]
        exact firstOccurrence_of_frontFree hfree
      · have hspan := Option.some.inj (hm.symm.trans hsome)
        simpa using hspan

section

variable {p : Pattern} {piece t : Text} (h : p.Finds piece)
include h

theorem Finds.replaces_of_occursIn (hp : piece ≠ []) (ht : p.occursIn t = true) (new : Text) :
    Replaces piece new t (replaceAll t piece new) := by
  obtain ⟨m, hm⟩ := Option.isSome_iff_exists.mp ht
  obtain ⟨before, rest, hfirst, _⟩ := h.first t m hm
  exact ⟨before, rest, hfirst, hfirst.replaceAll_eq hp⟩

theorem Finds.not_occursIn_iff {replaced : List Text} :
    ¬ (piece ∉ replaced ∧ p.occursIn t = true) ↔ piece ∈ replaced ∨ ¬ piece <:+: t := by
  rw [occursIn, h.isSome_iff, not_and_or, not_not]

end

end Pattern

/-! ## Imports -/

/-- No character has a meaning of its own in a pattern, but for the dot. -/
def Usage.DottedText (t : Text) : Prop := ∀ c ∈ t, c = '.' ∨ c ∉ Usage.metacharacters

instance : DecidablePred Usage.DottedText := List.decidableBAll _

/-- A rule whose imports are made from such texts. -/
structure Rule.Searchable (r : Rule) : Prop where
  package : Usage.DottedText r.package
  className : Usage.DottedText r.className
  usage : Usage.DottedText r.usage

namespace Usage

open Text

theorem DottedText.mark? {t : Text} (h : DottedText t) :
    ∀ c ∈ t, c = '.' ∨ Pattern.mark? c = none := by
  intro c hc
  cases hm : Pattern.mark? c with
  | none => exact Or.inr rfl
  | some m =>
      exact Or.inl ((h c hc).resolve_right fun hnot => hnot (mem_metacharacters_of_mark? hm))

theorem searchable_ofVariable {className variableName package : Text}
    (hpackage : DottedText package) (hclass : DottedText className)
    (hvariable : DottedText variableName) :
    (Rule.ofVariable className variableName package).Searchable := by
  refine ⟨hpackage, hclass, ?_⟩
  intro c hc
  rcases List.mem_append.mp hc with hc | hc
  · exact hclass c hc
  · rcases List.mem_cons.mp hc with rfl | hc
    · exact Or.inl rfl
    · exact hvariable c hc

theorem variableImport_ne_nil (r : Rule) : variableImport r ≠ [] := List.cons_ne_nil _ _

theorem starImport_ne_nil (r : Rule) : starImport r ≠ [] := List.cons_ne_nil _ _

theorem convertVariableImport_cases {r : Rule} {p : Pattern} (h : p.Finds (variableImport r))
    (s : Progress) :
    ((variableImport r ∈ s.replaced ∨ ¬ variableImport r <:+: s.content) ∧
      s.convertVariableImport p r = .ok s) ∨
      (variableImport r ∉ s.replaced ∧
        ∃ u, Replaces (variableImport r) (classImport r) s.content u ∧
        s.convertVariableImport p r = Progress.splice ⟨u, variableImport r :: s.replaced⟩ r) := by
  unfold Progress.convertVariableImport
  split <;> rename_i htest
  · exact Or.inr ⟨htest.1, _, h.replaces_of_occursIn (variableImport_ne_nil r) htest.2 _, rfl⟩
  · exact Or.inl ⟨h.not_occursIn_iff.mp htest, rfl⟩

theorem applyStarImport_cases {r : Rule} {p : Pattern} (hp : starImportPattern r = .ok p)
    (h : p.Finds (starImport r)) (s : Progress) :
    ((starImport r ∈ s.replaced ∨ ¬ starImport r <:+: s.content) ∧ s.applyStarImport r = .ok s) ∨
      (starImport r ∉ s.replaced ∧ ∃ u, Replaces (starImport r) (classImport r) s.content u ∧
        s.applyStarImport r = .ok ⟨u, starImport r :: s.replaced⟩) := by
  rw [Progress.applyStarImport, hp]
  simp only [bind, Except.bind]
  split <;> rename_i htest
  · exact Or.inr ⟨htest.2, _, h.replaces_of_occursIn (starImport_ne_nil r) htest.1 _, rfl⟩
  · exact Or.inl ⟨h.not_occursIn_iff.mp fun hboth => htest hboth.symm, rfl⟩

/-- **Imports are found where they are replaced.** For a rule whose texts have no metacharacters but
dots, the patterns of its imports can be read, and to search for them is to search for the imports
as they are written: there is a match exactly if the import occurs, and it begins where the import
first occurs. So the steps that replace an import after such a search replace it at least once, and
they leave a text alone only if the import does not occur in it or was replaced before. -/
theorem import_steps_replace {r : Rule} (hr : r.Searchable) :
    ∃ variableMatcher starMatcher,
      variableImportPattern r = .ok variableMatcher ∧ starImportPattern r = .ok starMatcher ∧
      variableMatcher.Finds (variableImport r) ∧ starMatcher.Finds (starImport r) ∧
      ∀ s : Progress,
        (((variableImport r ∈ s.replaced ∨ ¬ variableImport r <:+: s.content) ∧
            s.convertVariableImport variableMatcher r = .ok s) ∨
          (variableImport r ∉ s.replaced ∧
            ∃ u, Replaces (variableImport r) (classImport r) s.content u ∧
            s.convertVariableImport variableMatcher r =
              Progress.splice ⟨u, variableImport r :: s.replaced⟩ r)) ∧
        (((starImport r ∈ s.replaced ∨ ¬ starImport r <:+: s.content) ∧
          s.applyStarImport r = .ok s) ∨
          (starImport r ∉ s.replaced ∧ ∃ u, Replaces (starImport r) (classImport r) s.content u ∧
            s.applyStarImport r = .ok ⟨u, starImport r :: s.replaced⟩)) := by
  have hvariable := variableImportPattern_eq_literal hr.package.mark? hr.usage.mark?
  have hstar := starImportPattern_eq_literal hr.package.mark? hr.className.mark?
  have hfindsVariable := Pattern.finds_literal (variableImport r)
  have hfindsStar := Pattern.finds_literal (starImport r)
  refine ⟨_, _, hvariable, hstar, hfindsVariable, hfindsStar, fun s => ⟨?_, ?_⟩⟩
  · exact convertVariableImport_cases hfindsVariable s
  · exact applyStarImport_cases hstar hfindsStar s

/-- The package has a dash, and the text has first what only differs from the import by a comma for
a dot. -/
theorem import_steps_replace_dash :
    (Rule.ofVariable ['M'] ['v'] "a-b".toList).Searchable ∧
      ∃ s : Progress,
        (⟨"import static a-b,M.*;import static a-b.M.*;".toList, []⟩ : Progress).applyStarImport
          (.ofVariable ['M'] ['v'] "a-b".toList) = .ok s ∧
        s.content = "import static a-b,M.*;import a-b.M;".toList := by
  have hr : (Rule.ofVariable ['M'] ['v'] "a-b".toList).Searchable :=
    searchable_ofVariable (by decide) (by decide) (by decide)
  refine ⟨hr, ?_⟩
  obtain ⟨_, _, _, _, _, _, hsteps⟩ := import_steps_replace hr
  rcases (hsteps ⟨"import static a-b,M.*;import static a-b.M.*;".toList, []⟩).2 with
    ⟨hnot, _⟩ | ⟨_, u, hu, happly⟩
  · rw [← contains_iff] at hnot
    exact absurd hnot (by decide +kernel)
  · obtain ⟨before, rest, hfirst, rfl⟩ := hu
    refine ⟨_, happly, ?_⟩
    change before ++ _ ++ _ = _
    rw [← hfirst.replaceAll_eq (starImport_ne_nil _)]
    decide +kernel

end Usage

end NlsBundle
