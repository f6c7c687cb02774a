import NlsBundle.Proofs.Rule.Build
import NlsBundle.Proofs.Usage.Passage

/-!
# Static imports and what they import

Where names do not interfere, each rule converts the import of its variable and the bare uses of it,
and nothing else; the imports of everything in a class are converted at the end. The proofs go
through the passages of a text (`Layout`): a step of a conversion converts passages of one kind, so
a text at some moment is given by the passages that are done. Proved here:

* `replaceAll_variableImport`, `splicedText_render`, `replaceAll_starImport`: what the replacements
  of one rule do;
* `Converting.step`, `Finishing.step`: what is done after the rules so far;
* `convert_static_passages`: a whole conversion turns every import and every use into what it shall
  be.
-/

namespace NlsBundle.Usage

/-- The passages of a kind are done as well. -/
def mark (kind : Passage → Prop) [DecidablePred kind] (done : Passage → Bool)
    (p : Passage) : Bool :=
  done p || decide (kind p)

theorem render_of_done {done : Passage → Bool} {p : Passage} (h : done p = true) :
    p.render done = p.converted := by
  rw [Passage.render, h]
  rfl

theorem render_of_not_done {done : Passage → Bool} {p : Passage} (h : done p = false) :
    p.render done = p.text := by
  rw [Passage.render, h]
  rfl

theorem render_congr {done done' : Passage → Bool} {p : Passage} (h : done p = done' p) :
    p.render done = p.render done' := by
  rw [Passage.render, Passage.render, h]

/-- To put the same text in place of all passages of a kind is to have them done. -/
theorem flatMap_render_mark {kind : Passage → Prop} [DecidablePred kind] {new : Text}
    (hnew : ∀ p, kind p → p.converted = new) (ps : List Passage) (done : Passage → Bool) :
    (ps.flatMap fun p => if kind p ∧ done p = false then new else p.render done) =
      ps.flatMap (Passage.render (mark kind done)) := by
  refine List.flatMap_congr fun p _ => ?_
  by_cases hp : kind p
  · have hdone : mark kind done p = true := by simp [mark, hp]
    rw [render_of_done hdone, hnew p hp]
    cases hd : done p with
    | false => simp [hp]
    | true => simp [render_of_done hd, hnew p hp]
  · rw [if_neg (fun h => hp h.1)]
    exact render_congr (by simp [mark, hp])

namespace Layout

variable {known : Rule → Prop} {ps : List Passage} {done : Passage → Bool} {r : Rule}

/-! ## Replacements of one rule -/

theorem not_usage_of_edge {x y : Text} {c : Char} (h : x ++ ['.'] = y ++ [c])
    (hc : isLeftEdge c = true) : False := by
  obtain rfl : '.' = c := List.singleton_inj.mp (List.append_inj' h rfl).2
  exact absurd hc (by decide)

theorem quote_ne_dot {x y : Text} (h : x ++ ['.'] = y ++ ['"']) : False := by
  have hc : '.' = '"' := List.singleton_inj.mp (List.append_inj' h rfl).2
  exact absurd hc (by decide)

/-- A variable with a dot before it is the end of its import. -/
theorem import_of_dot (hl : Layout known ps) (hk : Apart known) (hr : known r) {a b : Text}
    (h : ps.flatMap (Passage.render done) = a ++ ['.'] ++ r.variableName ++ b) :
    ∃ before after, ps = before ++ .variableImport r :: after ∧ done (.variableImport r) = false ∧
      a ++ ['.'] = before.flatMap (Passage.render done) ++ importFront r := by
  rcases hl.variable_in_render hk hr h with ⟨before, after, hsplit, _, ha⟩ | himport | ⟨z, hz⟩
  · have hedge : ∃ x c, before.flatMap (Passage.render done) = x ++ [c] ∧ isLeftEdge c = true :=
      hl.edge_before_use hk hsplit
    obtain ⟨x, c, hx, hc⟩ := hedge
    exact (not_usage_of_edge (ha.trans hx) hc).elim
  · exact himport
  · exact (quote_ne_dot hz).elim

theorem replaceAll_variableImport (hl : Layout known ps) (hk : Apart known) (hr : known r) :
    Text.replaceAll (ps.flatMap (Passage.render done)) (variableImport r) (classImport r) =
      ps.flatMap (Passage.render (mark (· = .variableImport r) done)) := by
  have hwell := hk.wellNamed r hr
  have hreplace :
      Text.replaceAll (ps.flatMap (Passage.render done)) (variableImport r) (classImport r) =
      ps.flatMap fun p =>
        if p = .variableImport r ∧ done p = false then classImport r else p.render done := by
    refine Text.replaceAll_flatMap ?_ ?_ ?_
    · rw [variableImport_eq_front hwell]
      simp [hwell.variableName.1]
    · rintro p _ ⟨rfl, hd⟩
      exact render_of_not_done hd
    · intro a b hab
      have hdot : ps.flatMap (Passage.render done) =
          (a ++ (staticKeyword ++ r.package ++ '.' :: r.className)) ++ ['.'] ++
            r.variableName ++ b := by
        rw [hab, variableImport_eq_front hwell, importFront]
        simp
      obtain ⟨before, after, hsplit, hd, ha⟩ := hl.import_of_dot hk hr hdot
      have hsame : a ++ importFront r = before.flatMap (Passage.render done) ++ importFront r := by
        rw [← ha, importFront]
        simp
      exact ⟨before, _, after, hsplit, ⟨rfl, hd⟩, List.append_cancel_right hsame⟩
  rw [hreplace]
  exact flatMap_render_mark (by rintro p rfl; rfl) ps done

/-- Splicing converts the uses of the rule's variable. -/
theorem splicedText_render (hl : Layout known ps) (hk : Apart known) (hr : known r) :
    Progress.splicedText r (ps.flatMap (Passage.render done)) =
      ps.flatMap (Passage.render (mark (· = .use r) done)) := by
  have hname := (hk.wellNamed r hr).variableName
  have hscan : scan r.variableName r.call ([] ++ ps.flatMap (Passage.render done)) =
      [] ++ ps.flatMap fun p => if p = .use r ∧ done p = false then r.call else p.render done := by
    refine scan_flatMap hname.1 ⟨?_, ?_, ?_, ?_⟩
    · rintro p _ ⟨rfl, hd⟩
      exact render_of_not_done hd
    · intro a c d b hab hdot hquote _
      have hocc :
          ps.flatMap (Passage.render done) =
            (a ++ [c]) ++ r.variableName ++ d :: b := by simpa using hab
      rcases hl.variable_in_render hk hr hocc with
        ⟨before, after, hsplit, hd, ha⟩ | ⟨_, _, _, _, ha⟩ | ⟨z, hz⟩
      · exact ⟨before, _, after, hsplit, ⟨rfl, hd⟩, by simpa using ha⟩
      · rw [importFront, ← List.cons_append, ← List.append_assoc, ← List.append_assoc] at ha
        exact absurd (Text.last_eq ha) hdot
      · exact absurd (Text.last_eq hz) hquote
    · rintro before p after hsplit ⟨rfl, _⟩
      have hleft : ∃ x c, before.flatMap (Passage.render done) = x ++ [c] ∧ isLeftEdge c = true :=
        hl.edge_before_use hk hsplit
      obtain ⟨x, c, hx, hc⟩ := hleft
      simp only [isLeftEdge, Bool.and_eq_true, Bool.not_eq_true', bne_iff_ne] at hc
      exact ⟨x, c, by simpa using hx, hname.notMem hc.1.1, hc.2, hc.1.2⟩
    · rintro before p after hsplit ⟨rfl, _⟩
      have hright : ∃ d y, after.flatMap (Passage.render done) = d :: y ∧ isRightEdge d = true :=
        hl.edge_after_use hk hsplit
      obtain ⟨d, y, hy, hd⟩ := hright
      simp only [isRightEdge, Bool.and_eq_true, Bool.not_eq_true', bne_iff_ne] at hd
      exact ⟨d, y, hy, hd.2⟩
  have hmark : scan r.variableName r.call (ps.flatMap (Passage.render done)) =
      ps.flatMap (Passage.render (mark (· = .use r) done)) := by
    exact hscan.trans (flatMap_render_mark (by rintro p rfl; rfl) ps done)
  rw [Progress.splicedText, hmark]
  -- no use is left, so none stands at the front either
  refine replaceFront_eq_self fun c rest hfront => ?_
  have hocc :
      ps.flatMap (Passage.render (mark (· = .use r) done)) = [c] ++ r.variableName ++ rest := by
    simpa using hfront
  rcases hl.variable_in_render hk hr hocc with ⟨_, _, _, hd, _⟩ | ⟨_, _, _, _, ha⟩ | ⟨z, hz⟩
  · simp [mark] at hd
  · have hlen := congrArg List.length ha
    simp only [importFront, List.length_append, List.length_cons, List.length_nil] at hlen
    omega
  · exact Text.last_eq ((List.nil_append [c]).trans hz)

/-- Once its import is converted, a variable is not used through its class. -/
theorem not_usage_infix_render (hl : Layout known ps) (hk : Apart known) (hr : known r)
    (hd : done (.variableImport r) = true) : ¬ r.usage <:+: ps.flatMap (Passage.render done) := by
  rintro ⟨a, b, hab⟩
  have hdot :
      ps.flatMap (Passage.render done) = (a ++ r.className) ++ ['.'] ++ r.variableName ++ b := by
    rw [← hab, (hk.wellNamed r hr).usage_eq]
    simp
  obtain ⟨_, _, _, hundone, _⟩ := hl.import_of_dot hk hr hdot
  rw [hd] at hundone
  exact Bool.noConfusion hundone

theorem classImport_eq_of_isStarOf {p : Passage} (h : p.IsStarOf r) :
    p.converted = classImport r := by
  cases p with
  | starImport r' =>
    have hstar : starImport r' = starImport r := h
    simp only [starImport_eq, List.append_assoc, List.append_cancel_left_eq] at hstar
    have hdot : (r'.package ++ '.' :: r'.className) ++ ['.', '*'] =
        (r.package ++ '.' :: r.className) ++ ['.', '*'] := by
      simpa using hstar
    have hsame := List.append_cancel_right hdot
    rw [Passage.converted, classImport_eq, classImport_eq, hsame]
  | free t => exact h.elim
  | variableImport r' => exact h.elim
  | use r' => exact h.elim

theorem replaceAll_starImport (hl : Layout known ps) (hk : Apart known) (hr : known r) :
    Text.replaceAll (ps.flatMap (Passage.render done)) (starImport r) (classImport r) =
      ps.flatMap (Passage.render (mark (Passage.IsStarOf r) done)) := by
  have hreplace :
      Text.replaceAll (ps.flatMap (Passage.render done)) (starImport r) (classImport r) =
      ps.flatMap fun p =>
        if p.IsStarOf r ∧ done p = false then classImport r else p.render done := by
    refine Text.replaceAll_flatMap ?_ ?_ ?_
    · rw [starImport_eq_front]
      simp
    · rintro p _ ⟨hp, hd⟩
      rw [render_of_not_done hd]
      cases p with
      | starImport r' => exact hp
      | free t => exact hp.elim
      | variableImport r' => exact hp.elim
      | use r' => exact hp.elim
    · intro a b hab
      obtain ⟨before, p, after, hsplit, hp, hd, ha⟩ := hl.star_in_render hk hr hab
      exact ⟨before, p, after, hsplit, ⟨hp, hd⟩, ha⟩
  rw [hreplace]
  exact flatMap_render_mark (fun p hp => classImport_eq_of_isStarOf hp) ps done

theorem text_of_isStarOf {p : Passage} (h : p.IsStarOf r) : p.text = starImport r := by
  cases p with
  | starImport r' => exact h
  | free t => exact h.elim
  | variableImport r' => exact h.elim
  | use r' => exact h.elim

end Layout

theorem infix_flatMap_of_mem {ps : List Passage} {p : Passage} (f : Passage → Text) (h : p ∈ ps) :
    f p <:+: ps.flatMap f := by
  obtain ⟨before, after, rfl⟩ := List.append_of_mem h
  exact ⟨before.flatMap f, after.flatMap f, by simp⟩

/-- Rules of one import are the same. -/
theorem Apart.eq_of_variableImport {known : Rule → Prop} (hk : Apart known) {r r' : Rule}
    (hr : known r) (hr' : known r') (h : variableImport r' = variableImport r) : r' = r := by
  have hname' := (hk.wellNamed r' hr').variableName
  refine hk.eq_of_infix r' hr' r hr (List.IsSuffix.isInfix ?_)
  -- the variable is what follows the last dot
  rw [variableImport_eq (hk.wellNamed r' hr'), variableImport_eq (hk.wellNamed r hr)] at h
  have hend :
      r'.variableName <:+ staticKeyword ++ r.package ++ '.' :: r.className ++
        '.' :: r.variableName := by
    rw [← h]
    exact (List.suffix_cons '.' _).trans (List.suffix_append _ _)
  exact Text.suffix_of_suffix_append_cons (hname'.notMem (by decide)) hend

/-! ## The rules one after the other -/

/-- The passages that the rules `pre` convert before the imports of everything are converted. -/
def doneBy (pre : List Rule) : Passage → Bool
  | .free _ => false
  | .starImport _ => false
  | .variableImport r => decide (r ∈ pre)
  | .use r => decide (r ∈ pre)

/-- Where a conversion stands after the rules `pre`. -/
structure Converting (known : Rule → Prop) (ps : List Passage) (pre : List Rule)
    (s : Progress) : Prop where
  content_eq : s.content = ps.flatMap (Passage.render (doneBy pre))
  mem_of_variable : ∀ r, known r → r.variableName ∈ s.replaced → r ∈ pre
  mem_of_import : ∀ r, known r → variableImport r ∈ s.replaced → r ∈ pre
  star_notMem : ∀ r, known r → starImport r ∉ s.replaced

section

variable {known : Rule → Prop} {ps : List Passage} {r : Rule} {s : Progress} {pre : List Rule}

/-- To skip a splice that was done before makes no difference. -/
theorem Layout.spliceUses_content (hl : Layout known ps) (hk : Apart known) (hr : known r)
    {done : Passage → Bool} (hc : s.content = ps.flatMap (Passage.render done))
    (hskip : r.variableName ∈ s.replaced → done (.use r) = true) :
    (s.spliceUses r).content = ps.flatMap (Passage.render (mark (· = .use r) done)) := by
  unfold Progress.spliceUses
  split
  · rename_i hin
    rw [hc]
    refine List.flatMap_congr fun p _ => render_congr ?_
    by_cases hp : p = .use r
    · simp [mark, hp, hskip hin]
    · simp [mark, hp]
  · change Progress.splicedText r s.content = _
    rw [hc, hl.splicedText_render hk hr]

/-- With the import and the uses of a rule, all its passages are done. -/
theorem mark_doneBy (pre : List Rule) (r : Rule) (p : Passage) :
    mark (· = .use r) (mark (· = .variableImport r) (doneBy pre)) p = doneBy (pre ++ [r]) p := by
  cases p <;> simp [mark, doneBy, Bool.decide_or]

theorem flatMap_render_congr {done done' : Passage → Bool} (h : ∀ p ∈ ps, done p = done' p) :
    ps.flatMap (Passage.render done) = ps.flatMap (Passage.render done') :=
  List.flatMap_congr fun p hp => render_congr (h p hp)

/-- A rule that finds its import converts it, and its uses. -/
theorem Converting.content_of_import (hl : Layout known ps) (hk : Apart known) (hr : known r)
    (h : Converting known ps pre s) :
    (((s.replace (variableImport r) (classImport r)).spliceUses r).takeStarUses r).content =
      ps.flatMap (Passage.render (doneBy (pre ++ [r]))) := by
  have hwell := hk.wellNamed r hr
  have hreplace : (s.replace (variableImport r) (classImport r)).content =
      ps.flatMap (Passage.render (mark (· = .variableImport r) (doneBy pre))) := by
    rw [Progress.replace, h.content_eq, hl.replaceAll_variableImport hk hr]
  have hsplice := hl.spliceUses_content hk hr hreplace (by
    intro hin
    rcases List.mem_cons.mp hin with heq | hin
    · exact absurd (heq ▸ space_mem_variableImport hwell) (hwell.variableName.notMem (by decide))
    · simp [mark, doneBy, h.mem_of_variable r hr hin])
  unfold Progress.takeStarUses
  split
  · rw [hl.spliceUses_content hk hr hsplice (by simp [mark])]
    refine flatMap_render_congr fun p _ => ?_
    rw [← mark_doneBy pre r p]
    simp [mark, Bool.or_assoc]
  · rw [hsplice]
    exact flatMap_render_congr fun p _ => mark_doneBy pre r p

/-- An import that a rule does not find was converted before. -/
theorem Converting.import_done (hr : known r) (h : Converting known ps pre s)
    (himport : ¬ (variableImport r ∉ s.replaced ∧ Text.contains s.content (variableImport r)))
    (hin : .variableImport r ∈ ps) : r ∈ pre := by
  by_contra hpre
  refine himport ⟨fun hrep => hpre (h.mem_of_import r hr hrep), Text.contains_iff.mpr ?_⟩
  rw [h.content_eq]
  have hshown := infix_flatMap_of_mem (Passage.render (doneBy pre)) hin
  rwa [render_of_not_done (by simp [doneBy, hpre])] at hshown

/-- A use that no import is left for was converted before. -/
theorem Converting.use_done (hl : Layout known ps) (h : Converting known ps pre s)
    (hdone : .variableImport r ∈ ps → r ∈ pre) (hstar : ¬ Text.contains s.content (starImport r))
    (hin : .use r ∈ ps) : r ∈ pre := by
  rcases hl.imported r hin with hv | ⟨p, hp, hkind⟩
  · exact hdone hv
  · refine absurd (Text.contains_iff.mpr ?_) hstar
    rw [h.content_eq]
    have hshown := infix_flatMap_of_mem (Passage.render (doneBy pre)) hp
    rwa [render_of_not_done (by cases p <;> first | rfl | exact hkind.elim),
      Layout.text_of_isStarOf hkind] at hshown

/-- A rule converts its import and its uses. -/
theorem Converting.content_takeStarUses (hl : Layout known ps) (hk : Apart known) (hr : known r)
    (h : Converting known ps pre s) :
    ((s.takeVariableImport r).takeStarUses r).content =
      ps.flatMap (Passage.render (doneBy (pre ++ [r]))) := by
  by_cases himport : variableImport r ∉ s.replaced ∧ Text.contains s.content (variableImport r)
  · rw [Progress.takeVariableImport, if_pos himport]
    exact h.content_of_import hl hk hr
  · rw [Progress.takeVariableImport, if_neg himport, Progress.takeStarUses]
    have hdone := h.import_done hr himport
    split <;> rename_i hstar
    · rw [hl.spliceUses_content hk hr h.content_eq
        fun hin => by simp [doneBy, h.mem_of_variable r hr hin]]
      refine flatMap_render_congr fun p hp => ?_
      rw [← mark_doneBy pre r p]
      by_cases hv : p = .variableImport r
      · simp [mark, hv, doneBy, hdone (hv ▸ hp)]
      · simp [mark, hv]
    · -- nothing is left to do for this rule
      have hused := h.use_done hl hdone hstar
      rw [h.content_eq]
      refine flatMap_render_congr fun p hp => ?_
      rw [← mark_doneBy pre r p]
      by_cases hv : p = .variableImport r
      · simp [mark, hv, doneBy, hdone (hv ▸ hp)]
      · by_cases hu : p = .use r
        · simp [mark, hu, doneBy, hused (hu ▸ hp)]
        · simp [mark, hv, hu]

/-- **One rule.** -/
theorem Converting.step (hl : Layout known ps) (hk : Apart known) (hr : known r)
    (h : Converting known ps pre s) :
    Converting known ps (pre ++ [r]) (s.step r) := by
  have hwell := hk.wellNamed r hr
  have hcontent := h.content_takeStarUses hl hk hr
  have hqualified : s.step r = (s.takeVariableImport r).takeStarUses r := by
    have hdone : doneBy (pre ++ [r]) (.variableImport r) = true := by simp [doneBy]
    refine if_neg fun hc => hl.not_usage_infix_render hk hr hdone ?_
    rw [← hcontent]
    exact Text.contains_iff.mp hc.2
  refine ⟨by rw [hqualified, hcontent], ?_, ?_, ?_⟩
  · intro r' hr' hin
    rcases Progress.variableName_mem_step hwell (hk.wellNamed r' hr') hin with hin | heq
    · exact List.mem_append_left _ (h.mem_of_variable r' hr' hin)
    · simp [hk.eq_of_infix r' hr' r hr (heq ▸ List.infix_rfl)]
  · intro r' hr' hin
    rcases Progress.variableImport_mem_step hwell (hk.wellNamed r' hr') hin with hin | heq
    · exact List.mem_append_left _ (h.mem_of_import r' hr' hin)
    · simp [hk.eq_of_variableImport hr hr' heq]
  · intro r' hr' hin
    exact h.star_notMem r' hr' (Progress.starImport_mem_step hwell hin)

end

/-! ## Imports of everything -/

/-- The passages that are done when the imports of everything in the classes of the rules `pre`
are. -/
def finishedBy (pre : List Rule) : Passage → Bool
  | .free _ => true
  | .starImport r => pre.any fun r' => decide (starImport r = starImport r')
  | .variableImport _ => true
  | .use _ => true

/-- Where the end of a conversion stands after the rules `pre`. -/
structure Finishing (known : Rule → Prop) (ps : List Passage) (pre : List Rule)
    (s : Progress) : Prop where
  content_eq : s.content = ps.flatMap (Passage.render (finishedBy pre))
  mem_of_star : ∀ r, known r → starImport r ∈ s.replaced → ∃ r' ∈ pre, starImport r = starImport r'

section

variable {known : Rule → Prop} {ps : List Passage} {r : Rule} {s : Progress} {pre : List Rule}

theorem mark_finishedBy (pre : List Rule) (r : Rule) (p : Passage) :
    mark (Passage.IsStarOf r) (finishedBy pre) p = finishedBy (pre ++ [r]) p := by
  cases p with
  | starImport r' =>
    simp only [mark, finishedBy, List.any_append, List.any_cons, List.any_nil, Bool.or_false]
    rfl
  | free t => rfl
  | variableImport r' => rfl
  | use r' => rfl

theorem Finishing.step (hl : Layout known ps) (hk : Apart known) (hr : known r)
    (h : Finishing known ps pre s) :
    Finishing known ps (pre ++ [r]) (s.starStep r) := by
  have hreplace : Text.replaceAll s.content (starImport r) (classImport r) =
      ps.flatMap (Passage.render (finishedBy (pre ++ [r]))) := by
    rw [h.content_eq, hl.replaceAll_starImport hk hr]
    exact List.flatMap_congr fun p _ => render_congr (mark_finishedBy pre r p)
  have hskip : starImport r ∈ s.replaced → ¬ starImport r <:+: s.content := by
    rintro hin ⟨a, b, hab⟩
    rw [h.content_eq] at hab
    obtain ⟨_, p, _, _, hkind, hundone, _⟩ := hl.star_in_render hk hr hab.symm
    obtain ⟨r', hr', heq⟩ := h.mem_of_star r hr hin
    cases p with
    | starImport r₀ =>
      have hdone : finishedBy pre (.starImport r₀) = true := by
        simp only [finishedBy, List.any_eq_true, decide_eq_true_eq]
        exact ⟨r', hr', (show starImport r₀ = starImport r from hkind).trans heq⟩
      rw [hdone] at hundone
      exact Bool.noConfusion hundone
    | free t => exact hkind.elim
    | variableImport r₀ => exact hkind.elim
    | use r₀ => exact hkind.elim
  constructor
  · rw [← hreplace]
    unfold Progress.starStep
    split
    · rfl
    · rename_i hnot
      refine (Text.replaceAll_of_not_infix (by rw [starImport_eq_front]; simp) fun hin => ?_).symm
      exact hnot ⟨Text.contains_iff.mpr hin, fun hrep => hskip hrep hin⟩
  · intro r' hr' hin
    unfold Progress.starStep at hin
    split at hin
    · rcases List.mem_cons.mp hin with heq | hin
      · exact ⟨r, by simp, heq⟩
      · obtain ⟨r₀, hr₀, heq⟩ := h.mem_of_star r' hr' hin
        exact ⟨r₀, by simp [hr₀], heq⟩
    · obtain ⟨r₀, hr₀, heq⟩ := h.mem_of_star r' hr' hin
      exact ⟨r₀, by simp [hr₀], heq⟩

end

/-- Rules whose names do not interfere turn every import and every use of a well laid out text into
what it shall be, and keep the rest. -/
theorem convert_passages {rules : List Rule} {ps : List Passage} (hk : Apart (· ∈ rules))
    (hl : Layout (· ∈ rules) ps) :
    convert (ps.flatMap Passage.text) rules = .ok (ps.flatMap Passage.converted) := by
  rw [convert_eq hk.wellNamed]
  have hfirst : Converting (· ∈ rules) ps rules
      (rules.foldl (fun s r => Progress.step r s) ⟨ps.flatMap Passage.text, []⟩) := by
    refine foldl_induction ⟨?_, by simp, by simp, by simp⟩ ?_
    · exact List.flatMap_congr fun p _ => (render_of_not_done (by cases p <;> rfl)).symm
    · rintro pre r post s hsplit h
      exact h.step hl hk (by simp [hsplit])
  generalize rules.foldl (fun s r => Progress.step r s) ⟨ps.flatMap Passage.text, []⟩ =
    s at hfirst ⊢
  have hstart : Finishing (· ∈ rules) ps [] s := by
    refine ⟨?_, fun r hr hin => absurd hin (hfirst.star_notMem r hr)⟩
    rw [hfirst.content_eq]
    refine List.flatMap_congr fun p hp => ?_
    have hlisted := hl.listed p hp
    cases p with
    | free t => rw [Passage.render_free, Passage.render_free]
    | starImport r => rfl
    | variableImport r => exact render_congr (by simp [doneBy, finishedBy, hlisted r rfl])
    | use r => exact render_congr (by simp [doneBy, finishedBy, hlisted r rfl])
  have hlast :
      Finishing (· ∈ rules) ps rules (rules.foldl (fun s r => Progress.starStep r s) s) := by
    refine foldl_induction hstart ?_
    rintro pre r post s hsplit h
    exact h.step hl hk (by simp [hsplit])
  rw [hlast.content_eq]
  refine congrArg _ (List.flatMap_congr fun p hp => render_of_done ?_)
  have hlisted := hl.listed p hp
  cases p with
  | free t => rfl
  | starImport r =>
    simp only [finishedBy, List.any_eq_true, decide_eq_true_eq]
    exact ⟨r, hlisted r rfl, rfl⟩
  | variableImport r => rfl
  | use r => rfl

/-- **Static imports and what they import are converted exactly.** The rules of a listing whose
names do not interfere convert a text that is laid out in passages: the imports of variables and of
everything in a class become imports of the class, the uses become calls, and all other text stays.
There may be any number of classes, of imports and of uses between them. -/
theorem convert_static_passages {lines : List (Text × List Text)} {packages : List (Text × Text)}
    (hnamed : Rule.NamedListing lines packages)
    (hdistinct : ∀ r, Rule.Listed lines packages r → ∀ r', Rule.Listed lines packages r' →
      r.variableName <:+: r'.variableName → r = r')
    (hclass : ∀ r, Rule.Listed lines packages r → ∀ r', Rule.Listed lines packages r' →
      ¬ r.variableName <:+: r'.className)
    (hlookup : ∀ r, Rule.Listed lines packages r → ¬ r.variableName <:+: lookupName)
    {ps : List Passage} (hlayout : Layout (Rule.Listed lines packages) ps) :
    ∃ rules, Rule.build lines packages = .ok rules ∧
      convert (ps.flatMap Passage.text) rules = .ok (ps.flatMap Passage.converted) := by
  obtain ⟨rules, hbuild, hmem, _⟩ := Rule.exists_build_eq_ok hnamed
  have hsame : Rule.Listed lines packages = (· ∈ rules) := funext fun r => propext (hmem r).symm
  rw [hsame] at hdistinct hclass hlookup hlayout
  exact ⟨rules, hbuild,
    convert_passages ⟨fun r hr => hnamed.wellNamed ((hmem r).mp hr), hdistinct, hclass, hlookup⟩
    hlayout⟩

/-- A text with both kinds of static imports. -/
def bothImports : List Passage :=
  [.free "package a;\n".toList, .starImport (.ofVariable "M".toList "title".toList "p.q".toList),
    .free ";\n".toList, .variableImport (.ofVariable "N".toList "hint".toList "p".toList),
    .free ";\nf(".toList, .use (.ofVariable "M".toList "title".toList "p.q".toList),
    .free "+".toList, .use (.ofVariable "N".toList "hint".toList "p".toList), .free ",".toList,
    .use (.ofVariable "M".toList "label".toList "p.q".toList), .free ".length(), \"\");".toList]

theorem layout_bothImports : Layout (Rule.Listed [("p/q/M.java".toList,
          ["public static String title;".toList, "public static String label;".toList]),
        ("N.java".toList, ["public static String hint;".toList])]
        [("p/q/M.java".toList, "p.q".toList), ("N.java".toList, "p".toList)]) bothImports where
  listed := by decide +kernel
  placed := by decide +kernel
  imported := by
    intro r hr
    simp only [bothImports, List.mem_cons, reduceCtorEq, false_or, Passage.use.injEq,
      List.not_mem_nil, or_false] at hr
    rcases hr with rfl | rfl | rfl <;> decide +kernel
  variable_occurrence := by decide +kernel
  star_occurrence := by decide +kernel

theorem convert_static_passages_both :
    ∃ rules, Rule.build [("p/q/M.java".toList,
          ["public static String title;".toList, "public static String label;".toList]),
        ("N.java".toList, ["public static String hint;".toList])]
        [("p/q/M.java".toList, "p.q".toList), ("N.java".toList, "p".toList)] = .ok rules ∧
      convert ("package a;\nimport static p.q.M.*;\nimport static p.N.hint;\n" ++
          "f(title+hint,label.length(), \"\");").toList rules =
        .ok ("package a;\nimport p.q.M;\nimport p.N;\nf(M.getString(\"title\")" ++
          "+N.getString(\"hint\"),M.getString(\"label\").length(), \"\");").toList := by
  have htext : ("package a;\nimport static p.q.M.*;\nimport static p.N.hint;\n" ++
        "f(title+hint,label.length(), \"\");").toList =
      bothImports.flatMap Passage.text := by decide +kernel
  have hconverted : ("package a;\nimport p.q.M;\nimport p.N;\nf(M.getString(\"title\")" ++
        "+N.getString(\"hint\"),M.getString(\"label\").length(), \"\");").toList =
      bothImports.flatMap Passage.converted := by decide +kernel
  rw [htext, hconverted]
  exact convert_static_passages (by decide +kernel) (by decide +kernel) (by decide +kernel)
    (by decide +kernel) layout_bothImports

end NlsBundle.Usage
