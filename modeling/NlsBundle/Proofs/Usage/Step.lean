import NlsBundle.Proofs.Usage.Import

/-!
# What a rule does to a text

For rules made from names nothing can go wrong: the patterns of their imports stand for themselves,
and every splice comes to its end. So each step of a conversion is a plain function of the text and
of what has been replaced in it (`apply_eq`, `applyStarImport_eq`), and a whole conversion is a fold
of such steps (`convert_eq`). What a step remembers are texts of its own rule
(`variableName_mem_step` and the lemmas after it). `foldl_induction` is how invariants of the steps
are carried through.
-/

namespace NlsBundle.Usage

/-! ## Steps as functions -/

namespace Progress

/-- The text after the bare uses of the rule's variable have been replaced. -/
def splicedText (r : Rule) (t : Text) : Text :=
  replaceFront r.variableName r.call (scan r.variableName r.call t)

/-- Replaces the bare uses, unless that was done before. -/
def spliceUses (r : Rule) (s : Progress) : Progress :=
  if r.variableName ∈ s.replaced then s
  else ⟨splicedText r s.content, r.variableName :: s.replaced⟩

/-- Replaces the import of the variable, if there is one, and its bare uses. -/
def takeVariableImport (r : Rule) (s : Progress) : Progress :=
  if variableImport r ∉ s.replaced ∧ Text.contains s.content (variableImport r) then
    (s.replace (variableImport r) (classImport r)).spliceUses r
  else s

/-- Replaces the bare uses where everything in the class is imported. -/
def takeStarUses (r : Rule) (s : Progress) : Progress :=
  if Text.contains s.content (starImport r) then s.spliceUses r else s

/-- All that a rule does before the imports of everything are replaced. -/
def step (r : Rule) (s : Progress) : Progress :=
  ((s.takeVariableImport r).takeStarUses r).convertQualified r

/-- Replaces the import of everything in the rule's class. -/
def starStep (r : Rule) (s : Progress) : Progress :=
  if Text.contains s.content (starImport r) ∧ starImport r ∉ s.replaced then
    s.replace (starImport r) (classImport r)
  else s

theorem splice_eq {r : Rule} (hr : r.WellNamed) (s : Progress) :
    s.splice r = .ok (s.spliceUses r) := by
  unfold splice spliceUses
  split
  · rfl
  · rw [spliceVariable_eq hr.variableName.mark?_eq_none]
    rfl

theorem apply_eq {r : Rule} (hr : r.WellNamed) (s : Progress) : s.apply r = .ok (s.step r) := by
  have hvariable : s.convertVariableImport (.literal (variableImport r)) r =
      .ok (s.takeVariableImport r) := by
    unfold convertVariableImport takeVariableImport
    rw [occursIn_eq_contains]
    split
    · exact splice_eq hr _
    · rfl
  have hstar : ∀ s' : Progress, s'.convertStarUses (.literal (starImport r)) r =
      .ok (s'.takeStarUses r) := by
    intro s'
    unfold convertStarUses takeStarUses
    rw [occursIn_eq_contains]
    split
    · exact splice_eq hr _
    · rfl
  rw [apply, variableImportPattern_eq hr, starImportPattern_eq hr]
  simp only [bind, Except.bind, hvariable, hstar]
  rfl

theorem applyStarImport_eq {r : Rule} (hr : r.WellNamed) (s : Progress) :
    s.applyStarImport r = .ok (s.starStep r) := by
  rw [applyStarImport, starImportPattern_eq hr]
  simp only [bind, Except.bind, occursIn_eq_contains]
  rfl

/-! ## What a step remembers -/

theorem mem_convertQualified_replaced {r : Rule} {s : Progress} {q : Text}
    (h : q ∈ (s.convertQualified r).replaced) : q = r.usage ∨ q ∈ s.replaced := by
  unfold convertQualified at h
  split at h
  · exact List.mem_cons.mp h
  · exact Or.inr h

theorem mem_convertQualified_of_mem {r : Rule} {s : Progress} {q : Text} (h : q ∈ s.replaced) :
    q ∈ (s.convertQualified r).replaced := by
  unfold convertQualified
  split
  · exact List.mem_cons_of_mem _ h
  · exact h

theorem mem_spliceUses_replaced {r : Rule} {s : Progress} {q : Text} :
    q ∈ (s.spliceUses r).replaced ↔ q = r.variableName ∨ q ∈ s.replaced := by
  unfold spliceUses
  split <;> rename_i h
  · exact ⟨Or.inr, fun hq => hq.elim (fun hq => hq ▸ h) id⟩
  · exact List.mem_cons

theorem mem_step_replaced {r : Rule} {s : Progress} {q : Text} (h : q ∈ (s.step r).replaced) :
    q ∈ s.replaced ∨ q = r.variableName ∨ q = variableImport r ∨ q = r.usage := by
  have hvariable : ∀ {q}, q ∈ (s.takeVariableImport r).replaced →
      q ∈ s.replaced ∨ q = r.variableName ∨ q = variableImport r := by
    intro q hq
    unfold takeVariableImport at hq
    split at hq
    · rcases mem_spliceUses_replaced.mp hq with rfl | hq
      · simp
      · rcases List.mem_cons.mp hq with rfl | hq <;> simp [*]
    · exact Or.inl hq
  have hstar : ∀ {q}, q ∈ ((s.takeVariableImport r).takeStarUses r).replaced →
      q ∈ s.replaced ∨ q = r.variableName ∨ q = variableImport r := by
    intro q hq
    unfold takeStarUses at hq
    split at hq
    · rcases mem_spliceUses_replaced.mp hq with rfl | hq
      · simp
      · exact hvariable hq
    · exact hvariable hq
  rcases mem_convertQualified_replaced h with rfl | hq
  · simp
  · rcases hstar hq with hq | hq | hq <;> simp [hq]

section

variable {r r' : Rule} {s : Progress} (hr : r.WellNamed) (hr' : r'.WellNamed)
include hr hr'

theorem variableName_mem_step (h : r'.variableName ∈ (s.step r).replaced) :
    r'.variableName ∈ s.replaced ∨ r'.variableName = r.variableName := by
  rcases mem_step_replaced h with h | h | h | h
  · exact Or.inl h
  · exact Or.inr h
  · exact absurd (h ▸ space_mem_variableImport hr) (hr'.variableName.notMem (by decide))
  · refine absurd (?_ : '.' ∈ r'.variableName) (hr'.variableName.notMem (by decide))
    rw [h, hr.usage_eq]
    simp

theorem usage_mem_step (h : r'.usage ∈ (s.step r).replaced) :
    r'.usage ∈ s.replaced ∨ r'.usage = r.usage := by
  rcases mem_step_replaced h with h | h | h | h
  · exact Or.inl h
  · refine absurd (?_ : '.' ∈ r.variableName) (hr.variableName.notMem (by decide))
    rw [← h, hr'.usage_eq]
    simp
  · exact absurd (h ▸ space_mem_variableImport hr) (notMem_usage hr' (by decide) (by decide))
  · exact Or.inr h

theorem variableImport_mem_step (h : variableImport r' ∈ (s.step r).replaced) :
    variableImport r' ∈ s.replaced ∨ variableImport r' = variableImport r := by
  rcases mem_step_replaced h with h | h | h | h
  · exact Or.inl h
  · exact absurd (h ▸ space_mem_variableImport hr') (hr.variableName.notMem (by decide))
  · exact Or.inr h
  · exact absurd (h ▸ space_mem_variableImport hr') (notMem_usage hr (by decide) (by decide))

omit hr' in
theorem starImport_mem_step (h : starImport r' ∈ (s.step r).replaced) :
    starImport r' ∈ s.replaced := by
  have hstar : '*' ∈ starImport r' := by
    rw [starImport_eq_front]
    simp
  rcases mem_step_replaced h with h | h | h | h
  · exact h
  · exact absurd (h ▸ hstar) (hr.variableName.notMem (by decide))
  · exact absurd (h ▸ hstar) (star_notMem_variableImport hr)
  · exact absurd (h ▸ hstar) (notMem_usage hr (by decide) (by decide))

end

end Progress

/-! ## Whole conversions -/

theorem foldlM_eq_foldl {f : Progress → Rule → Except Error Progress}
    {g : Progress → Rule → Progress} {rules : List Rule} (h : ∀ r ∈ rules, ∀ s, f s r = .ok (g s r))
    (s : Progress) :
    rules.foldlM f s = .ok (rules.foldl g s) := by
  induction rules generalizing s with
  | nil => rfl
  | cons r rules ih =>
    rw [List.foldlM_cons, h r List.mem_cons_self]
    exact ih (fun r' hr' => h r' (List.mem_cons_of_mem r hr')) (g s r)

/-- A conversion by rules made from names always gives a text: the one that the steps lead to. -/
theorem convert_eq {rules : List Rule} (hr : ∀ r ∈ rules, r.WellNamed) (content : Text) :
    convert content rules = .ok (rules.foldl (fun s r => Progress.starStep r s)
      (rules.foldl (fun s r => Progress.step r s) ⟨content, []⟩)).content := by
  rw [convert, foldlM_eq_foldl fun r h s => Progress.apply_eq (hr r h) s]
  simp only [bind, Except.bind]
  rw [foldlM_eq_foldl fun r h s => Progress.applyStarImport_eq (hr r h) s]

/-- What holds at the start, and is carried on by each step to the rules done so far, holds at the
end. -/
theorem foldl_induction {α β : Type} {f : β → α → β} {P : List α → β → Prop} {xs : List α} {s : β}
    (h0 : P [] s)
    (hstep : ∀ pre x post s, xs = pre ++ x :: post → P pre s → P (pre ++ [x]) (f s x)) :
    P xs (xs.foldl f s) := by
  have h : ∀ pre post s, xs = pre ++ post → P pre s → P xs (post.foldl f s) := by
    intro pre post
    induction post generalizing pre with
    | nil =>
      intro s hxs hp
      rw [List.append_nil] at hxs
      exact hxs ▸ hp
    | cons x post ih =>
      intro s hxs hp
      exact ih (pre ++ [x]) (f s x) (by rw [hxs, List.append_assoc]; rfl)
        (hstep pre x post s hxs hp)
  exact h [] xs s rfl h0

end NlsBundle.Usage
