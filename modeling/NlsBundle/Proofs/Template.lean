import NlsBundle.Search
import NlsBundle.Template
import NlsBundle.Usage.Convert

/-!
# Filling templates

A template is filled from left to right: what has no braces is taken over, and an empty field takes
the next argument as it is, whatever that contains. Proved here:

* `fillFrom_plain_append`, `fillFrom_field`: one part of a template;
* `fill_fields`: a template whose fields are all empty is its parts with the arguments between them;
* `fill_imports`, `fill_searches`: so imports and the command lines of searches are filled
  templates.
-/

namespace NlsBundle.Template

/-- The text has no braces. -/
def IsPlain (t : Text) : Prop := '{' ∉ t ∧ '}' ∉ t

instance : DecidablePred IsPlain := fun t => inferInstanceAs (Decidable ('{' ∉ t ∧ '}' ∉ t))

variable {arguments : List Text} {numbering : Numbering}

/-! ## Parts of a template -/

theorem fillFrom_cons {c : Char} (hopen : c ≠ '{') (hclose : c ≠ '}') (t : Text) :
    fillFrom arguments numbering (c :: t) = (c :: ·) <$> fillFrom arguments numbering t := by
  rw [fillFrom, if_neg hclose, if_neg hopen]
  · exact fun _ h => absurd h hopen
  · exact fun _ h => absurd h hclose

theorem fillFrom_plain_append {part : Text} (h : IsPlain part) (t : Text) :
    fillFrom arguments numbering (part ++ t) =
      (part ++ ·) <$> fillFrom arguments numbering t := by
  induction part with
  | nil => simp
  | cons c part ih =>
    simp only [IsPlain, List.mem_cons, not_or] at h
    rw [List.cons_append, fillFrom_cons (Ne.symm h.1.1) (Ne.symm h.2.1), ih ⟨h.1.2, h.2.2⟩]
    simp [Functor.map_map]

theorem fillFrom_field {k : Nat} {value : Text}
    (hnumbering : fieldIndex numbering [] = .ok (k, .automatic (k + 1)))
    (hvalue : arguments[k]? = some value) (t : Text) :
    fillFrom arguments numbering ('{' :: '}' :: t) =
      (value ++ ·) <$> fillFrom arguments (.automatic (k + 1)) t := by
  rw [fillFrom]
  · simp [hnumbering, hvalue, bind, Except.bind]
  · simp
  · simp

/-! ## Whole templates -/

/-- The fields that are left take the arguments that are left. A slot is the argument of a field and
the part after the field. -/
theorem fillFrom_fields {slots : List (Text × Text)} (h : ∀ slot ∈ slots, IsPlain slot.2)
    (taken : List Text)
    (hnumbering : fieldIndex numbering [] = .ok (taken.length, .automatic (taken.length + 1))) :
    fillFrom (taken ++ slots.map Prod.fst) numbering
        (slots.flatMap fun slot => '{' :: '}' :: slot.2) =
      .ok (slots.flatMap fun slot => slot.1 ++ slot.2) := by
  induction slots generalizing taken numbering with
  | nil => rw [List.flatMap_nil, fillFrom, List.flatMap_nil]
  | cons slot slots ih =>
    have hvalue : (taken ++ (slot :: slots).map Prod.fst)[taken.length]? = some slot.1 := by simp
    have harguments : taken ++ (slot :: slots).map Prod.fst =
        taken ++ [slot.1] ++ slots.map Prod.fst := by simp
    have hnext : fieldIndex (.automatic (taken.length + 1)) [] =
        .ok ((taken ++ [slot.1]).length, .automatic ((taken ++ [slot.1]).length + 1)) := by
      simp [fieldIndex]
    have hrest := ih (fun other hother => h other (List.mem_cons_of_mem slot hother)) _ hnext
    rw [List.flatMap_cons, List.flatMap_cons, List.cons_append, List.cons_append,
      fillFrom_field hnumbering hvalue, fillFrom_plain_append (h slot List.mem_cons_self),
      harguments, hrest, List.append_assoc]
    rfl

/-- A template with empty fields only is its parts with the arguments between them, whatever the
arguments contain. -/
theorem fill_fields {front : Text} (hfront : IsPlain front) {slots : List (Text × Text)}
    (h : ∀ slot ∈ slots, IsPlain slot.2) :
    fill (front ++ slots.flatMap fun slot => '{' :: '}' :: slot.2) (slots.map Prod.fst) =
      .ok (front ++ slots.flatMap fun slot => slot.1 ++ slot.2) := by
  have hslots : fillFrom (slots.map Prod.fst) .undecided _ = _ := fillFrom_fields h [] rfl
  rw [fill, fillFrom_plain_append hfront, hslots]
  rfl

/-! ## Texts that are filled templates -/

theorem fill_one {template front back : Text} (x : Text)
    (htemplate : template = front ++ '{' :: '}' :: back) (hfront : IsPlain front)
    (hback : IsPlain back) : fill template [x] = .ok (front ++ x ++ back) := by
  have h := fill_fields hfront (List.forall_mem_singleton.mpr hback : ∀ slot ∈ [(x, back)], _)
  simpa [htemplate] using h

theorem fill_two {template front middle back : Text} (x y : Text)
    (htemplate : template = front ++ '{' :: '}' :: (middle ++ '{' :: '}' :: back))
    (hfront : IsPlain front) (hmiddle : IsPlain middle) (hback : IsPlain back) :
    fill template [x, y] = .ok (front ++ x ++ (middle ++ y ++ back)) := by
  have hparts : ∀ slot ∈ [(x, middle), (y, back)], IsPlain slot.2 := by
    simpa using ⟨hmiddle, hback⟩
  simpa [htemplate] using fill_fields hfront hparts

/-- The imports of a rule. -/
theorem fill_imports (r : Rule) :
    fill "import \x7b\x7d.\x7b\x7d".toList [r.package, r.className] =
        .ok (Usage.classImport r) ∧
      fill "import static \x7b\x7d.\x7b\x7d".toList [r.package, r.usage] =
        .ok (Usage.variableImport r) ∧
      fill "import static \x7b\x7d.\x7b\x7d.*".toList [r.package, r.className] =
        .ok (Usage.starImport r) := by
  have hdot : IsPlain ['.'] := by decide
  have hend : IsPlain [] := by decide
  have hstatic : IsPlain "import static ".toList := by decide
  refine ⟨?_, ?_, ?_⟩
  · have h : fill "import \x7b\x7d.\x7b\x7d".toList [r.package, r.className] =
        .ok ("import ".toList ++ r.package ++ (['.'] ++ r.className ++ [])) :=
      fill_two _ _ (by decide) (by decide) hdot hend
    rwa [List.append_nil] at h
  · have h : fill "import static \x7b\x7d.\x7b\x7d".toList [r.package, r.usage] =
        .ok ("import static ".toList ++ r.package ++ (['.'] ++ r.usage ++ [])) :=
      fill_two _ _ (by decide) hstatic hdot hend
    rwa [List.append_nil] at h
  · have h : fill "import static \x7b\x7d.\x7b\x7d.*".toList [r.package, r.className] =
        .ok ("import static ".toList ++ r.package ++ (['.'] ++ r.className ++ ".*".toList)) :=
      fill_two _ _ (by decide) hstatic hdot (by decide)
    rwa [← List.append_assoc] at h

/-- The command lines of the searches in a module. -/
theorem fill_searches (modulePath : Text) :
    fill "ag 'class.*extends.*NLS' -G '.*java$' \x7b\x7d -l".toList [modulePath] =
        .ok (Search.messageClassesLine modulePath) ∧
      fill "ag 'static.*final.*IMessageResolver.*MSG.*=' -G '.*java$' \x7b\x7d -l".toList
        [modulePath] = .ok (Search.resolverClassesLine modulePath) ∧
      fill "find \x7b\x7d -iname \"*.java\"".toList [modulePath] =
        .ok (Search.sourceFilesLine modulePath) := by
  refine ⟨?_, ?_, ?_⟩
  · exact fill_one modulePath (by decide) (by decide) (by decide)
  · exact fill_one modulePath (by decide) (by decide) (by decide)
  · exact fill_one modulePath (by decide) (by decide) (by decide)

end NlsBundle.Template
