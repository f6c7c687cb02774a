import NlsBundle.Proofs.Usage.Step

/-!
# A use below an import of everything

The smallest text in which a variable is imported with everything in its class: the import, and
below it one line that uses the variable. Rules of the same class are applied to it.

* `variable_in_scene`, `usage_in_scene`: where their variables and their uses can be;
* `splicedText_variable`, `splicedText_call`: when they leave the use alone, and the call that comes
  after it;
* `splicedText_own`: the rule of the variable puts its call there.
-/

namespace NlsBundle.Usage

/-! ## The text -/

/-- What stands between the import and the use. -/
def assignment : Text := ";\n x = ".toList

theorem assignment_eq : assignment = [';', '\n', ' ', 'x', ' ', '='] ++ [' '] := by decide

def lineEnd : Text := ";\n".toList

/-- An import, and one use below it. -/
def scene (head used : Text) : Text := head ++ assignment ++ used ++ lineEnd

/-- The second word of a static import. -/
def staticWord : Text := "static".toList

/-- The rule `w` is about the class of `r`, and its variable is in no word of the import but the
class, nor the variable that is assigned. -/
structure Beside (r w : Rule) : Prop where
  wellNamed : w.WellNamed
  className_eq : w.className = r.className
  package_eq : w.package = r.package
  not_in_package : ¬ w.variableName <:+: r.package
  not_in_import : ¬ w.variableName <:+: importWord
  not_in_static : ¬ w.variableName <:+: staticWord
  ne_assigned : w.variableName ≠ ['x']

/-- What stands before the class in a static import. -/
def classFront (r : Rule) : Text := staticKeyword ++ r.package ++ ['.']

theorem scene_starImport (r : Rule) (used : Text) :
    scene (starImport r) used =
      classFront r ++ (r.className ++ '.' :: '*' :: (assignment ++ used ++ lineEnd)) := by
  rw [scene, starImport_eq, classFront]
  simp only [List.append_assoc, List.cons_append, List.nil_append]

theorem starImport_prefix_scene (r : Rule) (used : Text) :
    starImport r <+: scene (starImport r) used := by
  simp only [scene, List.append_assoc]
  exact List.prefix_append _ _

/-- A variable in the text lies in the class of the import or in what the use has become. -/
theorem variable_in_scene {r w : Rule} (hb : Beside r w) {used a b : Text}
    (h : scene (starImport r) used = a ++ w.variableName ++ b) :
    (∃ u v, r.className = u ++ w.variableName ++ v ∧ a = classFront r ++ u ∧
      b = v ++ '.' :: '*' :: (assignment ++ used ++ lineEnd)) ∨
    ∃ u v, used = u ++ w.variableName ++ v ∧ a = starImport r ++ assignment ++ u ∧
      b = v ++ lineEnd := by
  have hname := hb.wellNamed.variableName
  have hspace := hname.notMem (c := ' ') (by decide)
  have hfront : classFront r =
      [(importWord, ' '), (staticWord, ' '), (r.package, '.')].flatMap fun p => p.1 ++ [p.2] := by
    have hkeyword : staticKeyword = importWord ++ [' '] ++ (staticWord ++ [' ']) := by decide
    rw [classFront, hkeyword]
    simp
  rw [scene_starImport, hfront] at h
  obtain ⟨u, ha, hrest⟩ := Text.occurrence_after_pieces
    (by simp [hspace, hname.notMem (c := '.') (by decide)])
    (by simp [hb.not_in_import, hb.not_in_static, hb.not_in_package]) h
  rw [← hfront] at ha
  rcases Text.occurrence_append_cons (hname.notMem (by decide)) hrest with
    ⟨v, hclass, hb⟩ | ⟨u', rfl, hrest'⟩
  · exact Or.inl ⟨u, v, hclass, ha, hb⟩
  -- between the class and the use there is but one name, and it is not this one
  have hmiddle : '*' :: (assignment ++ used ++ lineEnd) =
      ([([], '*'), ([], ';'), ([], '\n'), ([], ' '), (['x'], ' '), ([], '='), ([], ' ')].flatMap
        fun p : Text × Char => p.1 ++ [p.2]) ++ (used ++ lineEnd) := by
    rw [assignment_eq]
    simp
  have hstar : starImport r ++ assignment = classFront r ++ (r.className ++ '.' ::
      [([], '*'), ([], ';'), ([], '\n'), ([], ' '), (['x'], ' '), ([], '='), ([], ' ')].flatMap
        fun p : Text × Char => p.1 ++ [p.2]) := by
    rw [starImport_eq, classFront, assignment_eq]
    simp
  rw [hmiddle] at hrest'
  obtain ⟨u, rfl, hend⟩ := Text.occurrence_after_pieces
    (by simp [hspace, hname.notMem (c := '*') (by decide), hname.notMem (c := ';') (by decide),
      hname.notMem (c := '\n') (by decide), hname.notMem (c := '=') (by decide)])
    (by simp [hname.1, List.infix_singleton_iff, hb.ne_assigned]) hrest'
  rcases Text.occurrence_append_cons (y := ['\n']) (hname.notMem (by decide)) hend with
    ⟨v, hused, hv⟩ | ⟨u', _, hnl⟩
  · exact Or.inr ⟨u, v, hused, by rw [ha, hstar]; simp, hv⟩
  · rcases Text.occurrence_append_cons (x := []) (hname.notMem (by decide)) hnl with
      ⟨_, hnil, _⟩ | ⟨_, _, hnil⟩ <;>
      simp [hname.1] at hnil

/-! ## Rules that find nothing -/

theorem length_classFront_gt (r : Rule) : 1 < (classFront r).length := by
  have hkeyword : 1 < staticKeyword.length := by decide
  simp only [classFront, List.length_append]
  omega

/-- The front of the text is the import, so there is nothing to replace there. -/
theorem replaceFront_scene {r w : Rule} (hb : Beside r w) (used call : Text) :
    replaceFront w.variableName call (scene (starImport r) used) = scene (starImport r) used := by
  refine replaceFront_eq_self fun c rest h => ?_
  have hlen := length_classFront_gt r
  rcases variable_in_scene hb (h.trans (List.append_assoc [c] w.variableName rest).symm) with
    ⟨u, _, _, hc, _⟩ | ⟨u, _, _, hc, _⟩
  · have := congrArg List.length hc
    simp only [List.length_append, List.length_singleton] at this
    omega
  · have := congrArg List.length hc
    simp only [starImport_eq, classFront, List.length_append, List.length_cons,
      List.length_nil] at this hlen
    omega

/-- Before the class stands a dot. -/
theorem eq_dot_of_class_front {r : Rule} {a u : Text} {c : Char} (hu : u = [])
    (h : a ++ [c] = classFront r ++ u) :
    c = '.' := by
  rw [hu, List.append_nil, classFront] at h
  exact Text.last_eq h

/-- The use is left alone by a rule whose variable has no part in it, and in the class only at its
front. -/
theorem splicedText_variable {r w : Rule} (hb : Beside r w)
    (hclass : ∀ a b, r.className = a ++ w.variableName ++ b → a = [])
    (hvariable : ¬ w.variableName <:+: r.variableName) :
    Progress.splicedText w (scene (starImport r) r.variableName) =
      scene (starImport r) r.variableName := by
  have hscan : scan w.variableName w.call (scene (starImport r) r.variableName) =
      scene (starImport r) r.variableName := by
    refine scan_eq_self ?_
    rintro a _ hab ⟨c, d, rest, rfl, hdot, _, _⟩
    rw [List.append_cons, ← List.append_assoc] at hab
    rcases variable_in_scene hb hab with ⟨u, v, hc, ha, _⟩ | ⟨u, v, hv, _⟩
    · exact hdot (eq_dot_of_class_front (hclass u v hc) ha)
    · exact hvariable ⟨u, v, hv.symm⟩
  rw [Progress.splicedText, hscan, replaceFront_scene hb]

/-- The call is left alone by a rule whose variable is not in its class, is in the name that it
looks up with only at the front, where a dot stands before it, and in the key only where a quote
stands next to it. -/
theorem splicedText_call {r w : Rule} (hr : r.WellNamed) (hb : Beside r w)
    (hclass : ¬ w.variableName <:+: r.className)
    (hlookup : ∀ a b, lookupName = a ++ w.variableName ++ b → a = [])
    (hkey : ∀ a b, r.variableName = a ++ w.variableName ++ b → a = [] ∨ b = []) :
    Progress.splicedText w (scene (starImport r) r.call) = scene (starImport r) r.call := by
  have hscan : scan w.variableName w.call (scene (starImport r) r.call) =
      scene (starImport r) r.call := by
    refine scan_eq_self ?_
    rintro a _ hab ⟨c, d, rest, rfl, hdot, hquote, hd⟩
    rw [List.append_cons, ← List.append_assoc] at hab
    rcases variable_in_scene hb hab with ⟨u, v, hc, _⟩ | ⟨u, v, hcall, ha, hd'⟩
    · exact hclass ⟨u, v, hc.symm⟩
    rcases hr.name_in_call hb.wellNamed.variableName hcall with
      ⟨v', hc, _⟩ | ⟨u', v', hu, hl, _⟩ | ⟨u', v', hu, hv, rfl⟩
    · exact hclass ⟨u, v', hc.symm⟩
    · have hlast : a ++ [c] = (starImport r ++ assignment ++ r.className) ++ ['.'] := by
        rw [ha, hu, hlookup u' v' hl]
        simp
      exact hdot (Text.last_eq hlast)
    · rcases hkey u' v' hv with rfl | rfl
      · have hlast : a ++ [c] = (starImport r ++ assignment ++ r.className ++
            '.' :: (lookupName ++ ['('])) ++ ['"'] := by
          rw [ha, hu]
          simp
        exact hquote (Text.last_eq hlast)
      · exact hd (List.cons.inj hd').1
  rw [Progress.splicedText, hscan, replaceFront_scene hb]

/-- The rule of the variable puts its call in the place of the use. -/
theorem splicedText_own {r : Rule} (hb : Beside r r)
    (hclass : ∀ a b, r.className = a ++ r.variableName ++ b → a = []) :
    Progress.splicedText r (scene (starImport r) r.variableName) = scene (starImport r) r.call := by
  have hscene : ∀ t, scene (starImport r) t =
      (starImport r ++ [';', '\n', ' ', 'x', ' ', '=']) ++ ' ' :: (t ++ ';' :: ['\n']) := by
    intro t
    rw [scene, assignment_eq, show lineEnd = [';', '\n'] from by decide]
    simp
  have hfree :
      Text.FrontFree (UseAt r.variableName) (starImport r ++ [';', '\n', ' ', 'x', ' ', '='])
      (' ' :: (r.variableName ++ ';' :: ['\n'])) := by
    intro a b hab hne
    rintro ⟨c, d, rest, hb', hdot, _, _⟩
    have hat : scene (starImport r) r.variableName = (a ++ [c]) ++ r.variableName ++ d :: rest := by
      rw [hscene, hab, List.append_assoc, hb']
      simp
    rcases variable_in_scene hb hat with ⟨u, v, hc, ha, _⟩ | ⟨u, v, _, ha, _⟩
    · exact hdot (eq_dot_of_class_front (hclass u v hc) ha)
    · -- the use cannot begin this early
      have hlen := congrArg List.length ha
      have hlen' := congrArg List.length hab
      have hpos := List.length_pos_of_ne_nil hne
      rw [assignment_eq] at hlen
      simp only [List.length_append, List.length_cons, List.length_nil] at hlen hlen'
      omega
  have hend : scan r.variableName r.call [';', '\n'] = [';', '\n'] := by
    refine scan_eq_self ?_
    rintro a _ hab ⟨c, d, rest, rfl, _⟩
    have hlen := congrArg List.length hab
    have hpos := List.length_pos_of_ne_nil hb.wellNamed.variableName.1
    simp only [List.length_append, List.length_cons, List.length_nil] at hlen
    omega
  have hscan : scan r.variableName r.call (scene (starImport r) r.variableName) =
      scene (starImport r) r.call := by
    rw [hscene, hscene, scan_append hfree, scan_use (by decide) (by decide) (by decide), hend]
  rw [Progress.splicedText, hscan, replaceFront_scene hb]

/-- A use with its class is only in the call, and there it goes into the name that is looked up
with. -/
theorem usage_in_scene {r w : Rule} (hr : r.WellNamed) (hb : Beside r w) {used a b : Text}
    (h : scene (starImport r) used = a ++ w.usage ++ b) :
    ∃ u v, used = u ++ '.' :: (w.variableName ++ v) ∧
      a ++ r.className = starImport r ++ assignment ++ u := by
  have hat : scene (starImport r) used = (a ++ r.className ++ ['.']) ++ w.variableName ++ b := by
    rw [h, hb.wellNamed.usage_eq, hb.className_eq]
    simp
  rcases variable_in_scene hb hat with ⟨u, v, hc, ha, _⟩ | ⟨u, v, hused, ha, _⟩
  · -- the class would be a part of the package
    exfalso
    have hu : u = [] := by
      rcases List.eq_nil_or_concat' u with rfl | ⟨u', c, rfl⟩
      · rfl
      · rw [← List.append_assoc] at ha
        have hdot : c = '.' := (Text.last_eq ha).symm
        refine absurd (?_ : '.' ∈ r.className) (hr.className.notMem (by decide))
        rw [hc, hdot]
        simp
    rw [hu, List.append_nil, classFront] at ha
    have hkeyword : staticKeyword = (importWord ++ ' ' :: staticWord) ++ [' '] := by decide
    have hfront : a ++ r.className = (importWord ++ ' ' :: staticWord) ++ ' ' :: r.package := by
      rw [(List.append_inj' ha rfl).1, hkeyword]
      simp
    have hpackage : r.className <:+ r.package :=
      Text.suffix_of_suffix_append_cons (hr.className.notMem (by decide)) ⟨a, hfront⟩
    have hclass : w.variableName <:+: r.className := ⟨u, v, hc.symm⟩
    exact hb.not_in_package (hclass.trans hpackage.isInfix)
  · rcases List.eq_nil_or_concat' u with rfl | ⟨u', c, rfl⟩
    · rw [List.append_nil, assignment_eq, ← List.append_assoc] at ha
      exact absurd (Text.last_eq ha) (by decide)
    · rw [← List.append_assoc] at ha
      obtain ⟨ha, hc⟩ := List.append_inj' ha rfl
      rw [← List.singleton_inj.mp hc] at hused
      exact ⟨u', v, by rw [hused]; simp, ha⟩

theorem usage_not_in_scene_variable {r w : Rule} (hr : r.WellNamed) (hb : Beside r w) :
    ¬ w.usage <:+: scene (starImport r) r.variableName := by
  rintro ⟨a, b, h⟩
  obtain ⟨u, v, hused, _⟩ := usage_in_scene hr hb h.symm
  refine absurd (?_ : '.' ∈ r.variableName) (hr.variableName.notMem (by decide))
  rw [hused]
  simp

theorem usage_in_scene_call {r w : Rule} (hr : r.WellNamed) (hb : Beside r w) :
    w.usage <:+: scene (starImport r) r.call ↔ w.variableName <+: lookupName := by
  constructor
  · rintro ⟨a, b, h⟩
    obtain ⟨u, v, hused, _⟩ := usage_in_scene hr hb h.symm
    obtain ⟨_, hv⟩ := hr.call_split hused
    exact Text.prefix_of_prefix_append_cons (m := '(')
      (hb.wellNamed.variableName.notMem (by decide)) ⟨v, hv⟩
  · rintro ⟨v, hv⟩
    refine ⟨starImport r ++ assignment,
      v ++ '(' :: '"' :: (r.variableName ++ ['"', ')']) ++ lineEnd, ?_⟩
    rw [scene, hr.call_eq, hb.wellNamed.usage_eq, hb.className_eq, ← hv]
    simp

/-- There is no import of a single variable. -/
theorem variableImport_not_in_scene {r w : Rule} (hr : r.WellNamed) (hb : Beside r w) {used : Text}
    (hused : used = r.variableName ∨ used = r.call) :
    ¬ variableImport w <:+: scene (starImport r) used := by
  rintro ⟨a, b, h⟩
  have hfront : variableImport w = classFront r ++ w.usage := by
    rw [variableImport_eq hb.wellNamed, hb.wellNamed.usage_eq, classFront, hb.package_eq]
    simp
  rw [hfront, ← List.append_assoc] at h
  rcases hused with rfl | rfl
  · exact usage_not_in_scene_variable hr hb ⟨a ++ classFront r, b, h⟩
  · obtain ⟨u, v, hcall, ha⟩ := usage_in_scene hr hb h.symm
    obtain ⟨rfl, _⟩ := hr.call_split hcall
    -- before the call stands a space, before the class of an import a dot
    have ha := List.append_cancel_right ha
    rw [classFront, assignment_eq, ← List.append_assoc, ← List.append_assoc (starImport r)] at ha
    exact absurd (Text.last_eq ha) (by decide)

end NlsBundle.Usage
