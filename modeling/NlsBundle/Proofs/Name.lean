import NlsBundle.Pattern.Parser
import NlsBundle.Proofs.Text.Separator
import NlsBundle.Rule
import NlsBundle.Text.Blank
import NlsBundle.Text.Occurrence

/-!
# Names

Classes and variables are named by letters, digits and underscores, and packages by such names with
dots between them. So a name lacks every character that separates names in a source text
(`IsName.notMem`, `IsPackage.notMem`), and none of its characters means anything else in a pattern
(`IsName.mark?_eq_none`).
-/

namespace NlsBundle

/-- The characters of names. -/
def isNameChar (c : Char) : Bool := c.isAlphanum || c == '_'

/-- A name has at least one character. -/
def IsName (t : Text) : Prop := t ≠ [] ∧ ∀ c ∈ t, isNameChar c = true

instance : DecidablePred IsName := fun t =>
  decidable_of_iff (t ≠ [] ∧ t.all isNameChar = true) (by rw [IsName, List.all_eq_true])

/-- A package is one name or more, with dots between them. -/
def IsPackage (t : Text) : Prop := ∀ n ∈ Text.splitWhere (· = '.') t, IsName n

instance : DecidablePred IsPackage :=
  fun t => inferInstanceAs (Decidable (∀ n ∈ Text.splitWhere (· = '.') t, IsName n))

theorem IsName.notMem {t : Text} (h : IsName t) {c : Char} (hc : isNameChar c = false) : c ∉ t := by
  intro hm
  rw [h.2 c hm] at hc
  exact Bool.noConfusion hc

theorem IsName.exists_eq_cons {t : Text} (h : IsName t) :
    ∃ c u, t = c :: u ∧ isNameChar c = true := by
  obtain ⟨c, u, rfl⟩ := List.exists_cons_of_ne_nil h.1
  exact ⟨c, u, rfl, h.2 c List.mem_cons_self⟩

theorem IsName.exists_eq_append {t : Text} (h : IsName t) :
    ∃ u c, t = u ++ [c] ∧ isNameChar c = true := by
  obtain ⟨u, c, rfl⟩ := (List.eq_nil_or_concat t).resolve_left h.1
  exact ⟨u, c, List.concat_eq_append, h.2 c (by simp)⟩

theorem mark?_eq_none_of_isNameChar {c : Char} (h : isNameChar c = true) :
    Pattern.mark? c = none := by
  unfold Pattern.mark?
  split <;> first | rfl | exact absurd h (by decide)

theorem IsName.mark?_eq_none {t : Text} (h : IsName t) : ∀ c ∈ t, Pattern.mark? c = none :=
  fun c hc => mark?_eq_none_of_isNameChar (h.2 c hc)

theorem isBlank_of_isNameChar {c : Char} (h : isNameChar c = true) : Text.isBlank c = false := by
  -- letters, digits and the underscore lie between the space and the blanks beyond ASCII
  have hrange : 48 ≤ c.toNat ∧ c.toNat ≤ 122 := by
    delta isNameChar Char.isAlphanum Char.isAlpha Char.isUpper Char.isLower Char.isDigit at h
    simp only [Bool.or_eq_true, Bool.and_eq_true, decide_eq_true_eq, beq_iff_eq, ge_iff_le,
      UInt32.le_iff_toNat_le] at h
    rcases h with ((h | h) | h) | rfl
    · exact ⟨le_trans (by decide) h.1, le_trans h.2 (by decide)⟩
    · exact ⟨le_trans (by decide) h.1, le_trans h.2 (by decide)⟩
    · exact ⟨le_trans (by decide) h.1, le_trans h.2 (by decide)⟩
    · decide
  rw [Text.isBlank, inRanges, List.any_eq_false]
  intro range hmem
  simp only [Text.blankRanges, List.mem_cons, List.not_mem_nil, or_false] at hmem
  simp only [Bool.and_eq_true, decide_eq_true_eq, not_and]
  rcases hmem with rfl | rfl | rfl | rfl | rfl | rfl | rfl | rfl | rfl | rfl <;> omega

theorem IsName.isBlank_eq_false {t : Text} (h : IsName t) : ∀ c ∈ t, Text.isBlank c = false :=
  fun c hc => isBlank_of_isNameChar (h.2 c hc)

/-! ## Packages -/

theorem Text.separator_or_mem_splitWhere (isSeparator : Char → Bool) {t : Text} {c : Char}
    (hc : c ∈ t) :
    isSeparator c = true ∨ ∃ piece ∈ splitWhere isSeparator t, c ∈ piece := by
  induction t with
  | nil => simp at hc
  | cons d t ih =>
    by_cases hd : isSeparator d = true
    · rcases List.mem_cons.mp hc with rfl | ht
      · exact Or.inl hd
      · rcases ih ht with h | ⟨piece, hp, hcp⟩
        · exact Or.inl h
        · exact Or.inr ⟨piece, by simp [splitWhere, hd, hp], hcp⟩
    · cases hs : splitWhere isSeparator t with
      | nil => exact absurd hs (splitWhere_ne_nil isSeparator t)
      | cons first pieces =>
        have hsplit : splitWhere isSeparator (d :: t) = (d :: first) :: pieces := by
          simp [splitWhere, hd, hs]
        rw [hsplit]
        rcases List.mem_cons.mp hc with rfl | ht
        · exact Or.inr ⟨c :: first, List.mem_cons_self, List.mem_cons_self⟩
        · rcases ih ht with h | ⟨piece, hp, hcp⟩
          · exact Or.inl h
          · rw [hs] at hp
            rcases List.mem_cons.mp hp with rfl | hp
            · exact Or.inr ⟨d :: piece, List.mem_cons_self, List.mem_cons_of_mem d hcp⟩
            · exact Or.inr ⟨piece, List.mem_cons_of_mem _ hp, hcp⟩

theorem IsPackage.eq_dot_or {t : Text} (h : IsPackage t) :
    ∀ c ∈ t, c = '.' ∨ isNameChar c = true := by
  intro c hc
  rcases Text.separator_or_mem_splitWhere (· = '.') hc with hd | ⟨piece, hp, hcp⟩
  · exact Or.inl (of_decide_eq_true hd)
  · exact Or.inr ((h piece hp).2 c hcp)

theorem IsPackage.notMem {t : Text} (h : IsPackage t) {c : Char} (hc : isNameChar c = false)
    (hd : c ≠ '.') :
    c ∉ t := by
  intro hm
  rcases h.eq_dot_or c hm with rfl | hn
  · exact hd rfl
  · rw [hn] at hc
    exact Bool.noConfusion hc

theorem IsPackage.ne_nil {t : Text} (h : IsPackage t) : t ≠ [] := by
  rintro rfl
  exact (h [] List.mem_cons_self).1 rfl

theorem IsPackage.isBlank_eq_false {t : Text} (h : IsPackage t) :
    ∀ c ∈ t, Text.isBlank c = false := by
  intro c hc
  rcases h.eq_dot_or c hc with rfl | hn
  · decide
  · exact isBlank_of_isNameChar hn

/-! ## Rules made from names -/

/-- The rule of a variable, all of whose parts are names. -/
structure Rule.WellNamed (r : Rule) : Prop where
  className : IsName r.className
  variableName : IsName r.variableName
  package : IsPackage r.package
  eq_ofVariable : r = .ofVariable r.className r.variableName r.package

instance : DecidablePred Rule.WellNamed := fun r =>
  decidable_of_iff (IsName r.className ∧ IsName r.variableName ∧ IsPackage r.package ∧
      r = .ofVariable r.className r.variableName r.package)
    ⟨fun h => ⟨h.1, h.2.1, h.2.2.1, h.2.2.2⟩, fun h => ⟨h.1, h.2, h.3, h.4⟩⟩

/-- The name of the method in a call. -/
def lookupName : Text := "getString".toList

theorem Rule.WellNamed.usage_eq {r : Rule} (h : r.WellNamed) :
    r.usage = r.className ++ '.' :: r.variableName :=
  congrArg Rule.usage h.eq_ofVariable

/-- A call, with the characters that separate its names. -/
theorem Rule.WellNamed.call_eq {r : Rule} (h : r.WellNamed) :
    r.call =
      r.className ++ '.' :: (lookupName ++ '(' :: '"' :: (r.variableName ++ ['"', ')'])) := by
  have hcall : r.call = (Rule.ofVariable r.className r.variableName r.package).call :=
    congrArg Rule.call h.eq_ofVariable
  have hopen : ".getString(\"".toList = '.' :: (lookupName ++ ['(', '"']) := by decide
  have hclose : "\")".toList = ['"', ')'] := by decide
  rw [hcall, Rule.ofVariable, hopen, hclose]
  simp

theorem Rule.WellNamed.exists_call_eq_append {r : Rule} (h : r.WellNamed) :
    ∃ z, r.call = z ++ [')'] :=
  ⟨r.className ++ '.' :: (lookupName ++ '(' :: '"' :: (r.variableName ++ ['"'])), by
    rw [h.call_eq]; simp⟩

theorem Rule.WellNamed.usage_ne_nil {r : Rule} (hr : r.WellNamed) : r.usage ≠ [] := by
  rw [hr.usage_eq]
  simp

/-- The dot of a use divides it into its class and its variable. -/
theorem Rule.WellNamed.usage_split {r : Rule} (hr : r.WellNamed) {u v : Text}
    (h : r.usage = u ++ '.' :: v) :
    u = r.className ∧ v = r.variableName := by
  rw [hr.usage_eq, List.append_cons_inj_of_notMem (hr.className.notMem (by decide))
    (hr.variableName.notMem (by decide))] at h
  exact ⟨h.1.symm, h.2.2.symm⟩

/-- The dot of a call stands between its class and the name of the look-up method. -/
theorem Rule.WellNamed.call_split {r : Rule} (hr : r.WellNamed) {u v : Text}
    (h : r.call = u ++ '.' :: v) :
    u = r.className ∧ v = lookupName ++ '(' :: '"' :: (r.variableName ++ ['"', ')']) := by
  have hrest : '.' ∉ lookupName ++ '(' :: '"' :: (r.variableName ++ ['"', ')']) := by
    have hv := hr.variableName.notMem (c := '.') (by decide)
    have hl : '.' ∉ lookupName := by decide
    simp [hv, hl]
  rw [hr.call_eq, List.append_cons_inj_of_notMem (hr.className.notMem (by decide)) hrest] at h
  exact ⟨h.1.symm, h.2.2.symm⟩

/-- A name in a call lies in its class, in the name of its method or in its key. -/
theorem Rule.WellNamed.name_in_call {r : Rule} (h : r.WellNamed) {n u b : Text} (hn : IsName n)
    (hc : r.call = u ++ n ++ b) :
    (∃ v, r.className = u ++ n ++ v ∧
      b = v ++ '.' :: (lookupName ++ '(' :: '"' :: (r.variableName ++ ['"', ')']))) ∨
    (∃ u' v, u = r.className ++ '.' :: u' ∧ lookupName = u' ++ n ++ v ∧
      b = v ++ '(' :: '"' :: (r.variableName ++ ['"', ')'])) ∨
    ∃ u' v, u = r.className ++ '.' :: (lookupName ++ '(' :: '"' :: u') ∧
      r.variableName = u' ++ n ++ v ∧
      b = v ++ ['"', ')'] := by
  have hnil : ∀ x y : Text, [] ≠ x ++ n ++ y := by
    intro x y hxy
    simp [hn.1] at hxy
  rw [h.call_eq] at hc
  rcases Text.occurrence_append_cons (hn.notMem (by decide)) hc with ⟨v, hclass, hb⟩ | ⟨u₁, rfl, h₁⟩
  · exact Or.inl ⟨v, hclass, hb⟩
  rcases Text.occurrence_append_cons (hn.notMem (by decide)) h₁ with
    ⟨v, hlookup, hb⟩ | ⟨u₂, rfl, h₂⟩
  · exact Or.inr (Or.inl ⟨u₁, v, rfl, hlookup, hb⟩)
  rcases Text.occurrence_append_cons (x := []) (hn.notMem (by decide)) h₂ with
    ⟨_, hempty, _⟩ | ⟨u₃, rfl, h₃⟩
  · exact absurd hempty (hnil _ _)
  rcases Text.occurrence_append_cons (hn.notMem (by decide)) h₃ with ⟨v, hkey, hb⟩ | ⟨u₄, rfl, h₄⟩
  · exact Or.inr (Or.inr ⟨u₃, v, rfl, hkey, hb⟩)
  rcases Text.occurrence_append_cons (x := []) (hn.notMem (by decide)) h₄ with
    ⟨_, hempty, _⟩ | ⟨u₅, rfl, h₅⟩
  · exact absurd hempty (hnil _ _)
  · exact absurd h₅ (hnil _ _)

end NlsBundle
