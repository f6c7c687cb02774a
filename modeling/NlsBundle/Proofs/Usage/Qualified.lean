import NlsBundle.Proofs.Rule.Build
import NlsBundle.Proofs.Usage.Step

/-!
# Uses through the class

In a text without static imports only the uses of variables through their classes are converted. A
use and the call that takes its place both have one dot. What follows the dot of a call is the name
of the look-up method, which no variable is a front of, and what follows that name is no part of any
use. So a call and the text around it never form a use that was not there before. Proved here:

* `infix_of_infix_replaceAll`, `not_usage_infix_replaceAll`: a replacement brings up no use, and
  removes its own;
* `convert_eq_replaceUses`: without static imports a conversion replaces the uses of one rule after
  the other, and what it remembers as replaced makes no difference;
* `convert_complete_idempotent`: such a conversion leaves no use, and a second one changes nothing;
* `convert_qualified_segments`: it replaces exactly the uses, where uses do not overlap.
-/

namespace NlsBundle.Usage

/-- The rule is made from names, and its variable is no front of the name of the look-up method. -/
structure Separable (r : Rule) : Prop extends r.WellNamed where
  not_prefix : ¬ r.variableName <+: lookupName

/-! ## Calls bring up no uses -/

/-- The piece occurs around a call only where it occurs beside it; the class of the call counts to
its left. -/
def Unmade (q : Text) : Prop :=
  ∀ r : Rule, r.WellNamed → ∀ a b, q <:+: a ++ r.call ++ b → q <:+: a ++ r.className ∨ q <:+: b

/-- Behind the name of the method a call has nothing that a use or a keyword could be made of. -/
theorem infix_around_call {r : Rule} (hr : r.WellNamed) {q a b : Text} (hparen : '(' ∉ q)
    (hquote : '"' ∉ q) (hclose : ')' ∉ q) (hq : q ≠ []) (hv : ¬ q <:+: r.variableName)
    (h : q <:+: a ++ r.call ++ b) :
    q <:+: a ++ r.className ++ '.' :: lookupName ∨ q <:+: b := by
  have htext : a ++ r.call ++ b = (a ++ r.className ++ '.' :: lookupName) ++
      '(' :: '"' :: (r.variableName ++ '"' :: ')' :: b) := by
    rw [hr.call_eq]
    simp
  rw [htext, Text.infix_append_cons_iff hparen, Text.infix_cons_iff_of_notMem hquote hq,
    Text.infix_append_cons_iff hquote, Text.infix_cons_iff_of_notMem hclose hq] at h
  rcases h with h | h | h
  · exact Or.inl h
  · exact absurd h hv
  · exact Or.inr h

/-- A use lies before a dot, or its variable follows this dot. -/
theorem usage_infix_append_dot {c v x y : Text} (hv : '.' ∉ v) (hy : '.' ∉ y)
    (h : c ++ '.' :: v <:+: x ++ '.' :: y) : c ++ '.' :: v <:+: x ∨ v <+: y := by
  obtain ⟨l, z, h⟩ := h
  have hdot : (l ++ c) ++ '.' :: (v ++ z) = x ++ '.' :: y := by simpa using h
  rcases List.append_eq_append_iff.mp hdot with ⟨u, rfl, hu⟩ | ⟨u, _, hu⟩
  · cases u with
    | nil => exact Or.inr ⟨z, (List.cons.inj hu).2⟩
    | cons d u =>
      obtain ⟨rfl, hvz⟩ := List.cons.inj hu
      obtain ⟨w, rfl⟩ := Text.prefix_of_prefix_append_cons hv (hvz ▸ List.prefix_append v z)
      exact Or.inl ⟨l, w, by simp⟩
  · cases u with
    | nil => exact Or.inr ⟨z, (List.cons.inj hu).2.symm⟩
    | cons d u =>
      obtain ⟨_, rfl⟩ := List.cons.inj hu
      simp at hy

theorem unmade_usage {r : Rule} (hr : Separable r) : Unmade r.usage := by
  intro r' hr' a b h
  have hclass := hr.className
  have hvar := hr.variableName
  rw [hr.usage_eq] at h ⊢
  have hchar : ∀ c, isNameChar c = false → c ≠ '.' → c ∉ r.className ++ '.' :: r.variableName := by
    intro c hc hd
    simp [hclass.notMem hc, hvar.notMem hc, hd]
  have hv : ¬ r.className ++ '.' :: r.variableName <:+: r'.variableName := by
    intro hi
    exact hr'.variableName.notMem (c := '.') (by decide) (hi.subset (by simp))
  rcases infix_around_call hr' (hchar _ (by decide) (by decide)) (hchar _ (by decide) (by decide))
    (hchar _ (by decide) (by decide)) (by simp) hv h with h | h
  · rcases usage_infix_append_dot (hvar.notMem (by decide)) (by decide) h with h | h
    · exact Or.inl h
    · exact absurd h hr.not_prefix
  · exact Or.inr h

theorem unmade_staticKeyword : Unmade staticKeyword := by
  intro r hr a b h
  have hv : ¬ staticKeyword <:+: r.variableName := by
    intro hi
    exact hr.variableName.notMem (c := ' ') (by decide) (hi.subset (by decide))
  rcases infix_around_call hr (by decide) (by decide) (by decide) (by decide) hv h with h | h
  · rw [Text.infix_append_cons_iff (by decide)] at h
    rcases h with h | h
    · exact Or.inl h
    · exact absurd (h.subset (by decide : ' ' ∈ staticKeyword)) (by decide)
  · exact Or.inr h

/-- Replacement brings up nothing that calls do not bring up. -/
theorem infix_of_infix_replaceAll {q : Text} (hq : Unmade q) {r : Rule} (hr : r.WellNamed)
    {t : Text} (h : q <:+: Text.replaceAll t r.usage r.call) : q <:+: t := by
  induction hn : t.length using Nat.strong_induction_on generalizing t with
  | _ n ih =>
    rcases Text.replaceAll_cases hr.usage_ne_nil r.call t with ⟨_, hself⟩ | ⟨a, b, rfl, _, hrep⟩
    · rwa [hself] at h
    · rw [hrep] at h
      have hlen : b.length < n := by
        have := List.length_pos_of_ne_nil hr.usage_ne_nil
        simp only [List.length_append] at hn
        omega
      rcases hq r hr a _ h with h | h
      · have hfront : a ++ r.className <+: a ++ r.usage ++ b := by
          rw [hr.usage_eq]
          exact ⟨'.' :: r.variableName ++ b, by simp⟩
        exact h.trans hfront.isInfix
      · exact (ih b.length hlen h rfl).trans (List.suffix_append _ b).isInfix

/-- Replacement leaves no use that it replaces. -/
theorem not_usage_infix_replaceAll {r : Rule} (hr : Separable r) (t : Text) :
    ¬ r.usage <:+: Text.replaceAll t r.usage r.call := by
  induction hn : t.length using Nat.strong_induction_on generalizing t with
  | _ n ih =>
    have hne := hr.toWellNamed.usage_ne_nil
    rcases Text.replaceAll_cases hne r.call t with ⟨hnot, hself⟩ | ⟨a, b, rfl, hfree, hrep⟩
    · rwa [hself]
    · rw [hrep]
      intro h
      have hlen : b.length < n := by
        have := List.length_pos_of_ne_nil hne
        simp only [List.length_append] at hn
        omega
      rcases unmade_usage hr r hr.toWellNamed a _ h with ⟨l, z, h⟩ | h
      · -- such an occurrence would begin before the first one
        have hshort : r.className.length < r.usage.length := by
          rw [hr.usage_eq]
          simp
        have hbound := congrArg List.length h
        simp only [List.length_append] at hbound
        have hlen : l.length < a.length := by omega
        obtain ⟨b', rfl⟩ : ∃ b', a = l ++ b' := by
          rcases List.append_eq_append_iff.mp ((List.append_assoc _ _ _).symm.trans h) with
            ⟨u, hu, _⟩ | ⟨u, rfl, _⟩
          · exact ⟨u, hu⟩
          · rw [List.length_append] at hlen
            omega
        refine hfree l b' rfl ?_ ⟨z ++ '.' :: r.variableName ++ b, ?_⟩
        · rintro rfl
          simp at hlen
        · have hz : r.usage ++ z = b' ++ r.className := by simpa using h
          calc r.usage ++ (z ++ '.' :: r.variableName ++ b)
              = (r.usage ++ z) ++ ('.' :: r.variableName ++ b) := by simp
            _ = b' ++ (r.usage ++ b) := by rw [hz, hr.usage_eq]; simp
      · exact ih b.length hlen b rfl h

/-! ## Texts without static imports -/

/-- Replaces the uses of one rule after the other. -/
def replaceUses (rules : List Rule) (t : Text) : Text :=
  rules.foldl (fun t r => Text.replaceAll t r.usage r.call) t

/-- There is nothing left to convert in the text. -/
structure Converted (rules : List Rule) (t : Text) : Prop where
  no_usage : ∀ r ∈ rules, ¬ r.usage <:+: t
  no_static : ¬ staticKeyword <:+: t

namespace Progress

theorem takeVariableImport_eq_self {r : Rule} (hr : r.WellNamed) {s : Progress}
    (h : ¬ staticKeyword <:+: s.content) : s.takeVariableImport r = s := by
  refine if_neg fun hc => h ?_
  exact (staticKeyword_prefix_variableImport hr).isInfix.trans (Text.contains_iff.mp hc.2)

theorem not_contains_starImport {r : Rule} {s : Progress} (h : ¬ staticKeyword <:+: s.content) :
    ¬ Text.contains s.content (starImport r) := by
  intro hc
  exact h ((staticKeyword_prefix_starImport r).isInfix.trans (Text.contains_iff.mp hc))

theorem step_eq_convertQualified {r : Rule} (hr : r.WellNamed) {s : Progress}
    (h : ¬ staticKeyword <:+: s.content) : s.step r = s.convertQualified r := by
  rw [step, takeVariableImport_eq_self hr h, takeStarUses, if_neg (not_contains_starImport h)]

theorem starStep_eq_self {r : Rule} {s : Progress} (h : ¬ staticKeyword <:+: s.content) :
    s.starStep r = s :=
  if_neg fun hc => not_contains_starImport h hc.1

/-- What was replaced before is a use that the text lacks, so to skip it makes no difference. -/
theorem convertQualified_content {r : Rule} (hr : r.WellNamed) {s : Progress}
    (h : r.usage ∈ s.replaced → ¬ r.usage <:+: s.content) :
    (s.convertQualified r).content = Text.replaceAll s.content r.usage r.call := by
  unfold convertQualified
  split
  · rfl
  · rename_i hskip
    refine (Text.replaceAll_of_not_infix hr.usage_ne_nil fun hin => ?_).symm
    by_cases hdone : r.usage ∈ s.replaced
    · exact h hdone hin
    · exact hskip ⟨hdone, Text.contains_iff.mpr hin⟩

end Progress

/-- Where a conversion without static imports stands after the rules `pre`: it has replaced their
uses, and the text lacks every use that is remembered as replaced. -/
structure Replacing (rules : List Rule) (content : Text) (pre : List Rule)
    (s : Progress) : Prop where
  content_eq : s.content = replaceUses pre content
  no_static : ¬ staticKeyword <:+: s.content
  absent : ∀ r ∈ rules, r.usage ∈ s.replaced → ¬ r.usage <:+: s.content

theorem Replacing.step {rules : List Rule} (hrules : ∀ r ∈ rules, Separable r) {content : Text}
    {pre : List Rule} {r : Rule} (hmem : r ∈ rules) {s : Progress}
    (h : Replacing rules content pre s) :
    Replacing rules content (pre ++ [r]) (s.step r) := by
  have hr := hrules r hmem
  have hstep := Progress.step_eq_convertQualified hr.toWellNamed h.no_static
  have htext : (s.step r).content = Text.replaceAll s.content r.usage r.call := by
    rw [hstep, Progress.convertQualified_content hr.toWellNamed (h.absent r hmem)]
  have hkept : ∀ q, Unmade q → ¬ q <:+: s.content → ¬ q <:+: (s.step r).content := by
    intro q hq hold hin
    rw [htext] at hin
    exact hold (infix_of_infix_replaceAll hq hr.toWellNamed hin)
  refine ⟨?_, hkept _ unmade_staticKeyword h.no_static, ?_⟩
  · rw [htext, h.content_eq, replaceUses, replaceUses, List.foldl_append]
    rfl
  · intro r' hr' hin
    rw [hstep] at hin
    rcases Progress.mem_convertQualified_replaced hin with hu | hold
    · rw [hu, htext]
      exact not_usage_infix_replaceAll hr s.content
    · exact hkept _ (unmade_usage (hrules r' hr')) (h.absent r' hr' hold)

/-- Without static imports a conversion replaces the uses of its rules, one rule after the other. -/
theorem convert_eq_replaceUses {rules : List Rule} (hrules : ∀ r ∈ rules, Separable r)
    {content : Text} (hstatic : ¬ staticKeyword <:+: content) :
    convert content rules = .ok (replaceUses rules content) ∧
      ¬ staticKeyword <:+: replaceUses rules content := by
  have hsteps :
      Replacing rules content rules (rules.foldl (fun s r => Progress.step r s) ⟨content, []⟩) := by
    refine foldl_induction ⟨rfl, hstatic, by simp⟩ ?_
    rintro pre r post s hsplit h
    exact h.step hrules (by simp [hsplit])
  have hstar : ∀ (rules : List Rule) (s : Progress), ¬ staticKeyword <:+: s.content →
      rules.foldl (fun s r => Progress.starStep r s) s = s := by
    intro rules s hs
    induction rules with
    | nil => rfl
    | cons r rules ih => rw [List.foldl_cons, Progress.starStep_eq_self hs, ih]
  rw [convert_eq fun r h => (hrules r h).toWellNamed, hstar rules _ hsteps.no_static,
    ← hsteps.content_eq]
  exact ⟨rfl, hsteps.no_static⟩

/-- Replacing the uses of all rules leaves none of them: each replacement removes its own, and later
ones bring none up. -/
theorem no_usage_replaceUses {rules : List Rule} (hrules : ∀ r ∈ rules, Separable r)
    (content : Text) :
    ∀ r ∈ rules, ¬ r.usage <:+: replaceUses rules content := by
  refine foldl_induction (P := fun (pre : List Rule) (t : Text) => ∀ r ∈ pre, ¬ r.usage <:+: t)
    (by simp) ?_
  rintro pre r post t rfl hpre r' hr'
  rcases List.mem_append.mp hr' with hold | hnew
  · exact fun hin => hpre r' hold
      (infix_of_infix_replaceAll (unmade_usage (hrules r' (by simp [hold])))
        (hrules r (by simp)).toWellNamed hin)
  · rw [List.mem_singleton.mp hnew]
    exact not_usage_infix_replaceAll (hrules r (by simp)) t

theorem replaceUses_eq_self {rules : List Rule} (hrules : ∀ r ∈ rules, Separable r) {t : Text}
    (h : ∀ r ∈ rules, ¬ r.usage <:+: t) : replaceUses rules t = t := by
  refine foldl_induction (P := fun _ t' => t' = t) rfl ?_
  rintro pre r post t' rfl rfl
  exact Text.replaceAll_of_not_infix (hrules r (by simp)).toWellNamed.usage_ne_nil (h r (by simp))

/-- Where there is nothing left to convert, a conversion changes nothing. -/
theorem convert_eq_self {rules : List Rule} (hrules : ∀ r ∈ rules, Separable r) {t : Text}
    (h : Converted rules t) : convert t rules = .ok t := by
  rw [(convert_eq_replaceUses hrules h.no_static).1, replaceUses_eq_self hrules h.no_usage]

/-- **Conversion is complete and idempotent.** Whatever the order and the number of the rules, a
text without static imports is converted into one that has none of their uses and no static imports,
and a second conversion leaves that text as it is. -/
theorem convert_complete_idempotent {rules : List Rule} {content : Text}
    (hnamed : ∀ r ∈ rules, r.WellNamed) (hlookup : ∀ r ∈ rules, ¬ r.variableName <+: lookupName)
    (hstatic : ¬ staticKeyword <:+: content) :
    ∃ result, convert content rules = .ok result ∧ (∀ r ∈ rules, ¬ r.usage <:+: result) ∧
      ¬ staticKeyword <:+: result ∧ convert result rules = .ok result := by
  have hrules : ∀ r ∈ rules, Separable r := fun r hr => ⟨hnamed r hr, hlookup r hr⟩
  obtain ⟨hok, hno⟩ := convert_eq_replaceUses hrules hstatic
  have hdone : Converted rules (replaceUses rules content) :=
    ⟨no_usage_replaceUses hrules content, hno⟩
  exact ⟨_, hok, hdone.no_usage, hdone.no_static, convert_eq_self hrules hdone⟩

/-- Rules whose names overlap, one of them twice. -/
def overlappingRules : List Rule :=
  [.ofVariable "M".toList "b".toList "p".toList, .ofVariable "M".toList "ab".toList "p".toList,
    .ofVariable "XM".toList "M".toList "q.r".toList, .ofVariable "M".toList "b".toList "p".toList]

theorem convert_complete_idempotent_overlap :
    ∃ result, convert "M.ab + XM.M.b.ab(M.M.ab)".toList overlappingRules = .ok result ∧
      (∀ r ∈ overlappingRules, ¬ r.usage <:+: result) ∧ ¬ staticKeyword <:+: result ∧
      convert result overlappingRules = .ok result :=
  convert_complete_idempotent (by decide) (by decide) (by decide)

/-! ## Texts with marked uses -/

/-- A part of a text: a use of the rule's variable through its class, or anything else. -/
inductive Segment
  | free (t : Text)
  | use (r : Rule)
  deriving DecidableEq, Repr

namespace Segment

def text : Segment → Text
  | free t => t
  | use r => r.usage

/-- What a conversion is to make of the part. -/
def converted : Segment → Text
  | free t => t
  | use r => r.call

/-- What the part has become when the given uses have been replaced. -/
def render (done : List Text) : Segment → Text
  | free t => t
  | use r => if r.usage ∈ done then r.call else r.usage

/-- The part is a use that reads as `q`. -/
def IsUseOf (q : Text) : Segment → Prop
  | free _ => False
  | use r => r.usage = q

instance (q : Text) : DecidablePred (IsUseOf q)
  | free _ => inferInstanceAs (Decidable False)
  | use r => inferInstanceAs (Decidable (r.usage = q))

end Segment

/-- The occurrence of `q` between `a` and `b` lies inside one single use. -/
def InsideUse (segs : List Segment) (a q b : Text) : Prop :=
  ∃ s₁ s₂ r u v, segs = s₁ ++ .use r :: s₂ ∧ r.usage = u ++ q ++ v ∧
    a = s₁.flatMap Segment.text ++ u ∧ b = v ++ s₂.flatMap Segment.text

theorem not_insideUse_nil (a q b : Text) : ¬ InsideUse [] a q b := by
  rintro ⟨s₁, s₂, r, u, v, h, _⟩
  simp at h

theorem insideUse_cons_iff {s : Segment} {segs : List Segment} {a q b : Text} :
    InsideUse (s :: segs) a q b ↔
      (∃ r, s = .use r ∧ a ++ q <+: r.usage ∧
        b = r.usage.drop (a ++ q).length ++ segs.flatMap Segment.text) ∨
        s.text <+: a ∧ InsideUse segs (a.drop s.text.length) q b := by
  constructor
  · rintro ⟨s₁, s₂, r, u, v, hsplit, hu, rfl, rfl⟩
    cases s₁ with
    | nil =>
      obtain ⟨rfl, rfl⟩ := List.cons.inj hsplit
      exact Or.inl ⟨r, rfl, ⟨v, hu.symm⟩, by rw [hu]; simp⟩
    | cons s' s₁ =>
      obtain ⟨rfl, rfl⟩ := List.cons.inj hsplit
      exact Or.inr ⟨⟨_, by simp; rfl⟩, s₁, s₂, r, u, v, rfl, hu, by simp, rfl⟩
  · rintro (⟨r, rfl, ⟨v, hv⟩, rfl⟩ | ⟨⟨z, rfl⟩, s₁, s₂, r, u, v, rfl, hu, ha, rfl⟩)
    · exact ⟨[], segs, r, a, v, rfl, hv.symm, rfl, by rw [← hv, List.drop_left]⟩
    · exact ⟨s :: s₁, s₂, r, u, v, rfl, hu, by simpa using ha, rfl⟩

instance InsideUse.decide :
    (segs : List Segment) → (a q b : Text) → Decidable (InsideUse segs a q b)
  | [], a, q, b => isFalse (not_insideUse_nil a q b)
  | .free t :: segs, a, q, b =>
    have := InsideUse.decide segs (a.drop t.length) q b
    decidable_of_iff (t <+: a ∧ InsideUse segs (a.drop t.length) q b)
      (by simp [insideUse_cons_iff, Segment.text])
  | .use r :: segs, a, q, b =>
    have := InsideUse.decide segs (a.drop r.usage.length) q b
    decidable_of_iff
      ((a ++ q <+: r.usage ∧ b = r.usage.drop (a ++ q).length ++ segs.flatMap Segment.text) ∨
      r.usage <+: a ∧ InsideUse segs (a.drop r.usage.length) q b)
        (by simp [insideUse_cons_iff, Segment.text])

theorem call_eq_of_usage_eq {r r' : Rule} (hr : r.WellNamed) (hr' : r'.WellNamed)
    (h : r.usage = r'.usage) :
    r.call = r'.call := by
  obtain ⟨hc, hv⟩ := hr.usage_split (h.trans hr'.usage_eq)
  rw [hr.call_eq, hr'.call_eq, hc, hv]

section

variable {segs : List Segment} {done : List Text}

/-- A name at the end of a text was there before uses in the text were replaced. -/
theorem suffix_text_of_suffix_render (huse : ∀ r, .use r ∈ segs → r.WellNamed) {w t : Text}
    (hw : IsName w) (h : w <:+ segs.flatMap (Segment.render done) ++ t) :
    w <:+ segs.flatMap Segment.text ++ t := by
  refine Text.suffix_flatMap_of_barrier (fun s₁ s s₂ hsplit => ?_) h
  cases s with
  | free t => exact Or.inl rfl
  | use r =>
    by_cases hd : r.usage ∈ done
    · obtain ⟨z, hz⟩ := (huse r (by simp [hsplit])).exists_call_eq_append
      exact Or.inr (Or.inl ⟨z, ')', hw.notMem (by decide), by rw [Segment.render, if_pos hd, hz]⟩)
    · exact Or.inl (if_neg hd)

/-- And so was a name at its front. -/
theorem prefix_text_of_prefix_render (huse : ∀ r, .use r ∈ segs → r.WellNamed) {w t : Text}
    (hw : IsName w) (h : w <+: t ++ segs.flatMap (Segment.render done)) :
    w <+: t ++ segs.flatMap Segment.text := by
  refine Text.prefix_flatMap_of_barrier (fun s₁ s s₂ hsplit => ?_) h
  cases s with
  | free t => exact Or.inl rfl
  | use r =>
    have hr := huse r (by simp [hsplit])
    by_cases hd : r.usage ∈ done
    · refine Or.inr
        (Or.inl ⟨r.className, '.', lookupName ++ '(' :: '"' :: (r.variableName ++ ['"', ')']),
          '.' :: r.variableName, hw.notMem (by decide), ?_, hr.usage_eq⟩)
      rw [Segment.render, if_pos hd, hr.call_eq]
    · exact Or.inl (if_neg hd)

/-- Where uses are found in a text some of whose uses have been replaced: inside uses that have
not. -/
theorem occurrence_in_render {r : Rule} (hr : Separable r) (huse : ∀ r, .use r ∈ segs → r.WellNamed)
    (hinside : ∀ a b, segs.flatMap Segment.text = a ++ r.usage ++ b → InsideUse segs a r.usage b)
    {a b : Text} (h : segs.flatMap (Segment.render done) = a ++ r.usage ++ b) :
    ∃ s₁ r' s₂ u, segs = s₁ ++ .use r' :: s₂ ∧ r'.usage ∉ done ∧ r'.className = u ++ r.className ∧
      r.variableName <+: r'.variableName ∧ a = s₁.flatMap (Segment.render done) ++ u := by
  have hdot :
      segs.flatMap (Segment.render done) = (a ++ r.className) ++ '.' :: (r.variableName ++ b) := by
    rw [h, hr.usage_eq]
    simp
  obtain ⟨s₁, s, s₂, u, v, rfl, hs, hleft, hright⟩ := Text.flatMap_eq_append_cons hdot
  -- the dot is not that of a call, so the part it is in has not changed
  have htext : s.text = u ++ '.' :: v ∧ ∀ r', s = .use r' → r'.usage ∉ done := by
    cases s with
    | free t => exact ⟨hs, by simp⟩
    | use r' =>
      by_cases hd : r'.usage ∈ done
      · rw [Segment.render, if_pos hd] at hs
        obtain ⟨_, rfl⟩ := (huse r' (by simp)).call_split hs
        refine absurd ?_ hr.not_prefix
        have hfront :
            r.variableName <+: lookupName ++ '(' :: ('"' :: (r'.variableName ++ ['"', ')']) ++
            s₂.flatMap (Segment.render done)) := ⟨b, by simpa using hright⟩
        exact Text.prefix_of_prefix_append_cons (hr.variableName.notMem (by decide)) hfront
      · rw [Segment.render, if_neg hd] at hs
        exact ⟨hs, by rintro _ ⟨⟩; exact hd⟩
  obtain ⟨a', ha'⟩ := suffix_text_of_suffix_render (fun r' h => huse r' (by simp [h])) hr.className
    (⟨a, hleft⟩ : r.className <:+ s₁.flatMap (Segment.render done) ++ u)
  obtain ⟨b', hb'⟩ :=
    prefix_text_of_prefix_render (fun r' h => huse r' (by simp [h])) hr.variableName
    (⟨b, hright⟩ : r.variableName <+: v ++ s₂.flatMap (Segment.render done))
  obtain ⟨t₁, t₂, r', u', v', hsplit, hin, ha, _⟩ := hinside a' b' (by
    rw [List.flatMap_append, List.flatMap_cons, htext.1, hr.usage_eq]
    calc _ = (s₁.flatMap Segment.text ++ u) ++ '.' :: (v ++ s₂.flatMap Segment.text) := by simp
      _ = _ := by rw [← ha', ← hb']; simp)
  have hlen : (u' ++ r.className).length < (Segment.use r').text.length := by
    rw [Segment.text, hin, hr.usage_eq]
    simp
  have hlen' : u.length < s.text.length := by
    rw [htext.1]
    simp
  obtain ⟨rfl, rfl, rfl, rfl⟩ := Text.part_unique hsplit hlen' hlen (by rw [← ha', ha]; simp)
  obtain ⟨hc, hv⟩ := (huse r' (by simp)).usage_split htext.1
  refine ⟨s₁, r', s₂, u', rfl, htext.2 r' rfl, hc.symm, ?_, ?_⟩
  · have hsplit' := (huse r' (by simp)).usage_split
      (show r'.usage =
        (u' ++ r.className) ++ '.' :: (r.variableName ++ v') by rw [hin, hr.usage_eq]; simp)
    exact ⟨v', hsplit'.2⟩
  · rw [← List.append_assoc] at hleft
    exact List.append_cancel_right hleft

/-- A rule replaces exactly the uses of its own, when only rules that come before it have been
applied. -/
theorem replaceAll_render {r : Rule} (hr : Separable r) (huse : ∀ r, .use r ∈ segs → r.WellNamed)
    (hinside : ∀ a b, segs.flatMap Segment.text = a ++ r.usage ++ b → InsideUse segs a r.usage b)
    (hlater : ∀ r', .use r' ∈ segs → r'.usage ∉ done → r'.key ≤ r.key) :
    Text.replaceAll (segs.flatMap (Segment.render done)) r.usage r.call =
      segs.flatMap (Segment.render (done ++ [r.usage])) := by
  have hreplace : Text.replaceAll (segs.flatMap (Segment.render done)) r.usage r.call =
      segs.flatMap fun s =>
        if s.IsUseOf r.usage ∧ r.usage ∉ done then r.call else s.render done := by
    refine Text.replaceAll_flatMap hr.toWellNamed.usage_ne_nil ?_ ?_
    · rintro (t | r') _ ⟨hu, hnew⟩
      · exact hu.elim
      · have hu : r'.usage = r.usage := hu
        rw [Segment.render, hu, if_neg hnew]
    · intro a b hab
      obtain ⟨s₁, r', s₂, u, rfl, hundone, hclass, hvar, ha⟩ :=
        occurrence_in_render hr huse hinside hab
      have hkey := hlater r' (by simp) hundone
      obtain ⟨hc, hv⟩ := Rule.eq_of_key_le hkey hvar ⟨u, hclass.symm⟩
      have hnil : u = [] := by simpa [← hc] using hclass
      have hu : r'.usage = r.usage := by rw [(huse r' (by simp)).usage_eq, hr.usage_eq, hc, hv]
      exact ⟨s₁, .use r', s₂, rfl, ⟨hu, hu ▸ hundone⟩, by simpa [hnil] using ha⟩
  rw [hreplace]
  refine congrArg List.flatten (List.map_congr_left fun s hs => ?_)
  cases s with
  | free t => simp [Segment.IsUseOf, Segment.render]
  | use r' =>
    by_cases hu : r'.usage = r.usage
    · have hcall := call_eq_of_usage_eq (huse r' hs) hr.toWellNamed hu
      by_cases hnew : r.usage ∈ done <;> simp [Segment.IsUseOf, Segment.render, hu, hnew, hcall]
    · simp [Segment.IsUseOf, Segment.render, hu]

end

/-- Rules in their order, applied one after the other, replace exactly the uses. -/
theorem replaceUses_segments {rules : List Rule} (hrules : ∀ r ∈ rules, Separable r)
    (hsorted : rules.Pairwise fun a b => b.key ≤ a.key) {segs : List Segment}
    (huse : ∀ r, .use r ∈ segs → r ∈ rules)
    (hinside : ∀ r ∈ rules, ∀ a b, segs.flatMap Segment.text = a ++ r.usage ++ b →
      InsideUse segs a r.usage b) :
    replaceUses rules (segs.flatMap Segment.text) = segs.flatMap Segment.converted := by
  have hwell : ∀ r, .use r ∈ segs → r.WellNamed := fun r hr => (hrules r (huse r hr)).toWellNamed
  have hrun : replaceUses rules (segs.flatMap Segment.text) =
      segs.flatMap (Segment.render (rules.map Rule.usage)) := by
    refine foldl_induction (P := fun (pre : List Rule) (t : Text) =>
      t = segs.flatMap (Segment.render (pre.map Rule.usage))) ?_ ?_
    · refine congrArg List.flatten (List.map_congr_left fun s _ => ?_)
      cases s <;> rfl
    · rintro pre r post t rfl rfl
      rw [List.map_append, List.map_singleton]
      refine replaceAll_render (hrules r (by simp)) hwell
        (hinside r (by simp)) fun r' hr' hundone => ?_
      -- a rule whose uses are still there does not come before this one
      have hafter : r' ∈ r :: post := by
        refine (List.mem_append.mp (huse r' hr')).resolve_left fun hpre => ?_
        exact hundone (List.mem_map_of_mem hpre)
      rcases List.mem_cons.mp hafter with rfl | hpost
      · exact le_rfl
      · exact List.rel_of_pairwise_cons (List.pairwise_append.mp hsorted).2.1 hpost
  rw [hrun]
  refine congrArg List.flatten (List.map_congr_left fun s hs => ?_)
  cases s with
  | free t => rfl
  | use r => exact if_pos (List.mem_map_of_mem (huse r hs))

/-- **Uses through classes are converted exactly.** The rules of a listing, applied to a text
without static imports in which every place that reads as a listed use lies inside one of the marked
uses, replace each of the marked uses by its call and keep all other text. The names may overlap: a
variable may begin with another one, a class may end in another one, and classes of one name may be
in several packages. -/
theorem convert_qualified_segments {lines : List (Text × List Text)} {packages : List (Text × Text)}
    (hnamed : Rule.NamedListing lines packages)
    (hlookup : ∀ r, Rule.Listed lines packages r → ¬ r.variableName <+: lookupName)
    {segs : List Segment} (huse : ∀ r, .use r ∈ segs → Rule.Listed lines packages r)
    (hstatic : ¬ staticKeyword <:+: segs.flatMap Segment.text)
    (hinside : ∀ r, Rule.Listed lines packages r → ∀ a b, segs.flatMap Segment.text =
      a ++ r.usage ++ b → InsideUse segs a r.usage b) :
    ∃ rules, Rule.build lines packages = .ok rules ∧
      convert (segs.flatMap Segment.text) rules = .ok (segs.flatMap Segment.converted) := by
  obtain ⟨rules, hbuild, hmem, hsorted⟩ := Rule.exists_build_eq_ok hnamed
  have hrules : ∀ r ∈ rules, Separable r := fun r hr =>
    ⟨hnamed.wellNamed ((hmem r).mp hr), hlookup r ((hmem r).mp hr)⟩
  refine ⟨rules, hbuild, ?_⟩
  rw [(convert_eq_replaceUses hrules hstatic).1,
    replaceUses_segments hrules hsorted (fun r hr => (hmem r).mpr (huse r hr))
      fun r hr => hinside r ((hmem r).mp hr)]

/-- Uses whose names overlap: one variable is the front of another, one class the end of another. -/
def overlappingUses : List Segment :=
  [.free "f(".toList, .use (.ofVariable "XM".toList "ab".toList "p".toList), .free "+".toList,
    .use (.ofVariable "M".toList "abc".toList "p.i18n".toList), .free ",".toList,
    .use (.ofVariable "M".toList "ab".toList "p.i18n".toList), .free ".length())".toList]

theorem convert_qualified_segments_overlap :
    ∃ rules, Rule.build [("i18n/M.java".toList,
          ["public static String ab;".toList, "public static String abc;".toList]),
        ("XM.java".toList, ["public static String ab;".toList])]
        [("i18n/M.java".toList, "p.i18n".toList), ("XM.java".toList, "p".toList)] = .ok rules ∧
      convert "f(XM.ab+M.abc,M.ab.length())".toList rules =
        .ok "f(XM.getString(\"ab\")+M.getString(\"abc\"),M.getString(\"ab\").length())".toList := by
  have htext :
      "f(XM.ab+M.abc,M.ab.length())".toList = overlappingUses.flatMap Segment.text := by decide
  have hconverted :
      "f(XM.getString(\"ab\")+M.getString(\"abc\"),M.getString(\"ab\").length())".toList =
      overlappingUses.flatMap Segment.converted := by decide
  rw [htext, hconverted]
  refine convert_qualified_segments (by decide +kernel) (by decide +kernel) ?_ (by decide +kernel)
    (by decide +kernel)
  intro r hr
  simp only [overlappingUses, List.mem_cons, reduceCtorEq, false_or, Segment.use.injEq,
    List.not_mem_nil, or_false] at hr
  rcases hr with rfl | rfl | rfl <;> decide +kernel

end NlsBundle.Usage
