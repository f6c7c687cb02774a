import NlsBundle.Proofs.Usage.Step

/-!
# Texts with static imports

A text is divided into passages: static imports, uses of the variables that these import, and
anything else. While it is converted, some of the passages are as they were and some are as they
shall be. Proved here, for names that do not interfere with each other:

* `variable_in_render`: at every moment a variable is found in a use that is not converted yet, at
  the end of an import that is not converted yet, or behind a quote;
* `star_in_render`: an import of everything in a class is found only where it is a passage;
* `edge_before_use`, `edge_after_use`, `semicolon_after`: what stands beside a use or an import
  stays there.
-/

namespace NlsBundle.Usage

/-! ## Passages -/

/-- A part of a text with static imports. -/
inductive Passage
  | free (t : Text)
  /-- the static import of everything in the rule's class -/
  | starImport (r : Rule)
  /-- the static import of the rule's variable -/
  | variableImport (r : Rule)
  /-- the rule's variable on its own -/
  | use (r : Rule)
  deriving DecidableEq, Repr

namespace Passage

def text : Passage → Text
  | free t => t
  | starImport r => Usage.starImport r
  | variableImport r => Usage.variableImport r
  | use r => r.variableName

/-- What a conversion is to make of the passage. -/
def converted : Passage → Text
  | free t => t
  | starImport r => classImport r
  | variableImport r => classImport r
  | use r => r.call

/-- The passage at some moment of a conversion. -/
def render (done : Passage → Bool) (p : Passage) : Text := if done p then p.converted else p.text

def rule? : Passage → Option Rule
  | free _ => none
  | starImport r => some r
  | variableImport r => some r
  | use r => some r

/-- The passage imports everything in the rule's class. -/
def IsStarOf (r : Rule) : Passage → Prop
  | starImport r' => Usage.starImport r' = Usage.starImport r
  | _ => False

instance (r : Rule) : DecidablePred (IsStarOf r)
  | starImport r' => inferInstanceAs (Decidable (Usage.starImport r' = Usage.starImport r))
  | free _ => inferInstanceAs (Decidable False)
  | variableImport _ => inferInstanceAs (Decidable False)
  | use _ => inferInstanceAs (Decidable False)

end Passage

/-- What may stand before a use. -/
def isLeftEdge (c : Char) : Bool := !isNameChar c && c != '"' && c != '.'

/-- What may stand after a use. -/
def isRightEdge (c : Char) : Bool := !isNameChar c && c != '"'

/-- An import is followed by a semicolon, and a use stands apart from names, quotes and the dot of a
class. -/
def Placed (before after : List Passage) : Passage → Prop
  | .free _ => True
  | .starImport _ => (after.flatMap Passage.text).head? = some ';'
  | .variableImport _ => (after.flatMap Passage.text).head? = some ';'
  | .use _ => (before.flatMap Passage.text).getLast?.any isLeftEdge ∧
      (after.flatMap Passage.text).head?.any isRightEdge

/-- A passage of the given kind begins behind `a`. -/
def BeginsAt (ps : List Passage) (kind : Passage → Prop) (a : Text) : Prop :=
  ∃ before p after, ps = before ++ p :: after ∧ kind p ∧ a = before.flatMap Passage.text

/-- A passage of the given kind ends before `b`. -/
def EndsAt (ps : List Passage) (kind : Passage → Prop) (b : Text) : Prop :=
  ∃ before p after, ps = before ++ p :: after ∧ kind p ∧ b = after.flatMap Passage.text

/-- The names of the rules do not interfere: none of the variables occurs in the name of another
variable, in that of a class or in that of the look-up method, and none is declared twice. -/
structure Apart (known : Rule → Prop) : Prop where
  wellNamed : ∀ r, known r → r.WellNamed
  eq_of_infix : ∀ r, known r → ∀ r', known r' → r.variableName <:+: r'.variableName → r = r'
  not_in_class : ∀ r, known r → ∀ r', known r' → ¬ r.variableName <:+: r'.className
  not_in_lookup : ∀ r, known r → ¬ r.variableName <:+: lookupName

/-- The passages are imports and uses of known rules, well placed, and every use is imported.
Variables and imports of everything occur nowhere but in these passages. -/
structure Layout (known : Rule → Prop) (ps : List Passage) : Prop where
  listed : ∀ p ∈ ps, ∀ r ∈ p.rule?, known r
  placed : ∀ before p after, ps = before ++ p :: after → Placed before after p
  imported : ∀ r, .use r ∈ ps → .variableImport r ∈ ps ∨ ∃ p ∈ ps, p.IsStarOf r
  variable_occurrence : ∀ r, known r → ∀ a b, ps.flatMap Passage.text = a ++ r.variableName ++ b →
    BeginsAt ps (· = .use r) a ∨ EndsAt ps (· = .variableImport r) b
  star_occurrence : ∀ r, known r → ∀ a b, ps.flatMap Passage.text = a ++ starImport r ++ b →
    BeginsAt ps (Passage.IsStarOf r) a

/-! ## Layouts are checked by positions -/

/-- The divisions of a list at one of its elements, by the position of the element. -/
theorem exists_split_iff {α : Type} {xs : List α} {P : List α → α → List α → Prop} :
    (∃ before x after, xs = before ++ x :: after ∧ P before x after) ↔
      ∃ i ∈ List.range xs.length, ∃ x ∈ xs[i]?, P (xs.take i) x (xs.drop (i + 1)) := by
  constructor
  · rintro ⟨before, x, after, rfl, h⟩
    exact ⟨before.length, by simp, x, by simp, by simpa using h⟩
  · rintro ⟨i, _, x, hx, h⟩
    obtain ⟨hi, rfl⟩ := List.getElem?_eq_some_iff.mp hx
    exact ⟨_, _, _, by rw [List.cons_getElem_drop_succ, List.take_append_drop], h⟩

theorem forall_split_iff {α : Type} {xs : List α} {P : List α → α → List α → Prop} :
    (∀ before x after, xs = before ++ x :: after → P before x after) ↔
      ∀ i ∈ List.range xs.length, ∀ x ∈ xs[i]?, P (xs.take i) x (xs.drop (i + 1)) := by
  constructor
  · rintro h i _ x hx
    obtain ⟨hi, rfl⟩ := List.getElem?_eq_some_iff.mp hx
    exact h _ _ _ (by rw [List.cons_getElem_drop_succ, List.take_append_drop])
  · rintro h before x after rfl
    simpa using h before.length (by simp) x (by simp)

instance decidableForallSplit {α : Type} (xs : List α) (P : List α → α → List α → Prop)
    [∀ before x after, Decidable (P before x after)] :
    Decidable (∀ before x after, xs = before ++ x :: after → P before x after) :=
  decidable_of_iff _ forall_split_iff.symm

instance (before after : List Passage) : (p : Passage) → Decidable (Placed before after p)
  | .free _ => inferInstanceAs (Decidable True)
  | .starImport _ => inferInstanceAs (Decidable ((after.flatMap Passage.text).head? = some ';'))
  | .variableImport _ => inferInstanceAs (Decidable ((after.flatMap Passage.text).head? = some ';'))
  | .use _ => inferInstanceAs (Decidable ((before.flatMap Passage.text).getLast?.any isLeftEdge ∧
      (after.flatMap Passage.text).head?.any isRightEdge))

instance (ps : List Passage) (kind : Passage → Prop) [DecidablePred kind] (a : Text) :
    Decidable (BeginsAt ps kind a) :=
  decidable_of_iff _ exists_split_iff.symm

instance (ps : List Passage) (kind : Passage → Prop) [DecidablePred kind] (b : Text) :
    Decidable (EndsAt ps kind b) :=
  decidable_of_iff _ exists_split_iff.symm

@[simp] theorem Passage.text_free (t : Text) : (Passage.free t).text = t := rfl

@[simp] theorem Passage.render_free (done : Passage → Bool) (t : Text) :
    (Passage.free t).render done = t :=
  ite_self t

/-! ## Edges of passages -/

section

variable {ps : List Passage} {done : Passage → Bool}

/-- Imports and uses begin with characters of names. -/
theorem text_eq_cons {p : Passage} {r : Rule} (hp : r ∈ p.rule?) (hr : r.WellNamed) :
    ∃ c t, p.text = c :: t ∧ isNameChar c = true := by
  cases p with
  | free t => simp [Passage.rule?] at hp
  | starImport r' => exact ⟨'i', _, rfl, by decide⟩
  | variableImport r' => exact ⟨'i', _, rfl, by decide⟩
  | use r' =>
    obtain rfl : r' = r := by simpa [Passage.rule?] using hp
    exact hr.variableName.exists_eq_cons

/-- What follows passages stays, unless it is part of a name. -/
theorem first_render (hw : ∀ p ∈ ps, ∀ r ∈ p.rule?, r.WellNamed) {d : Char}
    (hd : isNameChar d = false) (h : (ps.flatMap Passage.text).head? = some d) :
    (ps.flatMap (Passage.render done)).head? = some d := by
  induction ps with
  | nil => simp at h
  | cons p ps ih =>
    cases hp : p.rule? with
    | some r =>
      obtain ⟨c, t, ht, hc⟩ :=
        text_eq_cons (p := p) (r := r) (by simp [hp]) (hw p (by simp) r (by simp [hp]))
      have hcd : c = d := by simpa [ht] using h
      rw [hcd, hd] at hc
      exact Bool.noConfusion hc
    | none =>
      cases p with
      | free t =>
        cases t with
        | nil =>
          rw [List.flatMap_cons, Passage.render_free, List.nil_append]
          exact ih (fun q hq => hw q (by simp [hq])) h
        | cons c t => simpa using h
      | starImport r => simp [Passage.rule?] at hp
      | variableImport r => simp [Passage.rule?] at hp
      | use r => simp [Passage.rule?] at hp

/-- What precedes passages stays too, where no import of everything is the last of them. -/
theorem last_render (hw : ∀ p ∈ ps, ∀ r ∈ p.rule?, r.WellNamed)
    (hstar : ∀ before r after, ps = before ++ .starImport r :: after →
      after.flatMap Passage.text ≠ [])
    {c : Char} (hc : isNameChar c = false) (h : (ps.flatMap Passage.text).getLast? = some c) :
    (ps.flatMap (Passage.render done)).getLast? = some c := by
  have hname : ∀ (t u : Text), IsName u → (t ++ u).getLast? ≠ some c := by
    intro t u hu hlast
    obtain ⟨z, d, rfl, hd⟩ := hu.exists_eq_append
    have hdc : d = c := by simpa [← List.append_assoc] using hlast
    rw [hdc, hc] at hd
    exact Bool.noConfusion hd
  induction ps using List.reverseRecOn with
  | nil => simp at h
  | append_singleton ps p ih =>
    have hp := hw p (by simp)
    rw [List.flatMap_append, List.flatMap_singleton] at h ⊢
    cases p with
    | free t =>
      rcases List.eq_nil_or_concat t with rfl | ⟨u, d, rfl⟩
      · simp only [Passage.render_free, Passage.text, List.append_nil] at h ⊢
        refine ih (fun q hq => hw q (by simp [hq])) (fun before r after hsplit hnil => ?_) h
        refine hstar before r (after ++ [.free []]) (by simp [hsplit]) ?_
        rw [List.flatMap_append, hnil]
        rfl
      · simpa [Passage.text, ← List.append_assoc] using h
    | starImport r => exact absurd rfl (hstar ps r [] rfl)
    | variableImport r =>
      have hr := hp r (by simp [Passage.rule?])
      rw [Passage.text, variableImport_eq_front hr, ← List.append_assoc] at h
      exact absurd h (hname _ _ hr.variableName)
    | use r => exact absurd h (hname _ _ (hp r (by simp [Passage.rule?])).variableName)

end

/-- The passage is a static import of the rule's class or of its variable. -/
def Passage.IsImportOf (r : Rule) (p : Passage) : Prop := p = .starImport r ∨ p = .variableImport r

namespace Layout

variable {known : Rule → Prop} {ps : List Passage} {done : Passage → Bool}

theorem wellNamed (hl : Layout known ps) (hk : Apart known) :
    ∀ p ∈ ps, ∀ r ∈ p.rule?, r.WellNamed :=
  fun p hp r hr => hk.wellNamed r (hl.listed p hp r hr)

theorem known_of_isImportOf (hl : Layout known ps) {p : Passage} {r : Rule} (hp : p ∈ ps)
    (hi : p.IsImportOf r) :
    known r := by
  rcases hi with rfl | rfl <;> exact hl.listed _ hp r (by simp [Passage.rule?])

theorem known_of_use (hl : Layout known ps) {r : Rule} (hp : .use r ∈ ps) : known r :=
  hl.listed _ hp r (by simp [Passage.rule?])

/-- An import has its semicolon at every moment. -/
theorem semicolon_after (hl : Layout known ps) (hk : Apart known) {before after : List Passage}
    {p : Passage} {r : Rule} (h : ps = before ++ p :: after) (hi : p.IsImportOf r) :
    ∃ y, after.flatMap (Passage.render done) = ';' :: y := by
  have hplaced : (after.flatMap Passage.text).head? = some ';' := by
    rcases hi with rfl | rfl <;> exact hl.placed before _ after h
  rw [← List.head?_eq_some_iff]
  exact first_render (fun q hq => hl.wellNamed hk q (by simp [h, hq])) (by decide) hplaced

/-- And a use has its edges. -/
theorem edge_after_use (hl : Layout known ps) (hk : Apart known) {before after : List Passage}
    {r : Rule} (h : ps = before ++ .use r :: after) :
    ∃ d y, after.flatMap (Passage.render done) = d :: y ∧ isRightEdge d = true := by
  have hplaced : Placed before after (.use r) := hl.placed before _ after h
  obtain ⟨d, hfirst, hd⟩ := (Option.any_eq_true _ _).mp hplaced.2
  have hname : isNameChar d = false := by
    simp only [isRightEdge, Bool.and_eq_true, Bool.not_eq_true'] at hd
    exact hd.1
  have hrender : (after.flatMap (Passage.render done)).head? = some d :=
    first_render (fun q hq => hl.wellNamed hk q (by simp [h, hq])) hname hfirst
  obtain ⟨y, hy⟩ := List.head?_eq_some_iff.mp hrender
  exact ⟨d, y, hy, hd⟩

theorem edge_before_use (hl : Layout known ps) (hk : Apart known) {before after : List Passage}
    {r : Rule} (h : ps = before ++ .use r :: after) :
    ∃ x c, before.flatMap (Passage.render done) = x ++ [c] ∧ isLeftEdge c = true := by
  have hplaced : Placed before after (.use r) := hl.placed before _ after h
  obtain ⟨c, hlast, hc⟩ := (Option.any_eq_true _ _).mp hplaced.1
  have hname : isNameChar c = false := by
    simp only [isLeftEdge, Bool.and_eq_true, Bool.not_eq_true'] at hc
    exact hc.1.1
  have hrender : (before.flatMap (Passage.render done)).getLast? = some c := by
    refine last_render (fun q hq => hl.wellNamed hk q (by simp [h, hq])) ?_ hname hlast
    -- the semicolon of an import stands between it and the use
    rintro b₁ r' b₂ rfl hnil
    have hstar : Placed b₁ (b₂ ++ .use r :: after) (.starImport r') := hl.placed _ _ _ (by simp [h])
    obtain ⟨d, t, ht, hd⟩ :=
      (hk.wellNamed r (hl.known_of_use (by simp [h]))).variableName.exists_eq_cons
    have hsemicolon : d = ';' := by
      have hhead : ((b₂ ++ .use r :: after).flatMap Passage.text).head? = some ';' := hstar
      simpa [hnil, Passage.text, ht] using hhead
    rw [hsemicolon] at hd
    exact absurd hd (by decide)
  obtain ⟨x, hx⟩ := List.getLast?_eq_some_iff.mp hrender
  exact ⟨x, c, hx, hc⟩

/-! ## Where variables occur -/

/-- Where a variable begins in a passage of the text as it was. -/
theorem variable_in_text (hl : Layout known ps) (hk : Apart known) {r : Rule} (hr : known r)
    {before after : List Passage} {p : Passage} {u v b : Text} (hsplit : ps = before ++ p :: after)
    (hp : p.text = u ++ v) (hv : v ≠ [])
    (hb : v ++ after.flatMap Passage.text = r.variableName ++ b) :
    p = .use r ∧ u = [] ∨ p = .variableImport r ∧ u = importFront r := by
  have hwell := hk.wellNamed r hr
  have hlen : u.length < p.text.length := by
    have := List.length_pos_of_ne_nil hv
    rw [hp, List.length_append]
    omega
  have htext :
      ps.flatMap Passage.text = (before.flatMap Passage.text ++ u) ++ r.variableName ++ b := by
    rw [List.append_assoc _ r.variableName, ← hb, hsplit, List.flatMap_append, List.flatMap_cons,
      hp]
    simp
  rcases hl.variable_occurrence r hr _ _ htext with
    ⟨b₁, q, b₂, hq, rfl, ha⟩ | ⟨b₁, q, b₂, hq, rfl, hend⟩
  · have hpos : ([] : Text).length < (Passage.use r).text.length :=
      List.length_pos_of_ne_nil hwell.variableName.1
    obtain ⟨_, rfl, _, rfl⟩ := Text.part_unique (hsplit.symm.trans hq) hlen hpos (by simpa using ha)
    exact Or.inl ⟨rfl, rfl⟩
  · have hpos : (importFront r).length < (Passage.variableImport r).text.length := by
      have := List.length_pos_of_ne_nil hwell.variableName.1
      rw [Passage.text, variableImport_eq_front hwell, List.length_append]
      omega
    have hfront : before.flatMap Passage.text ++ u = b₁.flatMap Passage.text ++ importFront r := by
      have hsame : (before.flatMap Passage.text ++ u) ++ (r.variableName ++ b) =
          (b₁.flatMap Passage.text ++ importFront r) ++ (r.variableName ++ b) := by
        rw [← List.append_assoc, ← htext, hq, hend, List.flatMap_append, List.flatMap_cons,
          Passage.text, variableImport_eq_front hwell]
        simp
      exact List.append_cancel_right hsame
    obtain ⟨_, rfl, _, rfl⟩ := Text.part_unique (hsplit.symm.trans hq) hlen hpos hfront
    exact Or.inr ⟨rfl, rfl⟩

/-- No variable occurs in what stands before the class in an import. -/
theorem not_in_importFront (hl : Layout known ps) (hk : Apart known) {r r' : Rule} (hr : known r)
    {p : Passage} (hp : p ∈ ps) (hi : p.IsImportOf r') :
    ¬ r.variableName <:+: staticKeyword ++ r'.package := by
  rintro ⟨x, y, hxy⟩
  obtain ⟨before, after, hsplit⟩ := List.append_of_mem hp
  obtain ⟨z, hz⟩ : ∃ z, p.text = x ++ (r.variableName ++ z) := by
    rcases hi with rfl | rfl
    · exact ⟨_, by rw [Passage.text, starImport_eq, ← hxy]; simp only [List.append_assoc]; rfl⟩
    · have hr' := hk.wellNamed r' (hl.known_of_isImportOf hp (Or.inr rfl))
      exact ⟨_, by
        rw [Passage.text, variableImport_eq hr', ← hxy]
        simp only [List.append_assoc]
        rfl⟩
  have hne : r.variableName ++ z ≠ [] := by simp [(hk.wellNamed r hr).variableName.1]
  rcases hl.variable_in_text hk hr hsplit hz hne (by rw [List.append_assoc]) with
    ⟨rfl, _⟩ | ⟨rfl, rfl⟩
  · rcases hi with hi | hi <;> cases hi
  · -- the front of the import would be longer than itself
    have hrr : r' = r := by rcases hi with hi | hi <;> cases hi; rfl
    have hlen := congrArg List.length hxy
    simp only [importFront, hrr, List.length_append, List.length_cons] at hlen
    omega

theorem not_in_classImport (hl : Layout known ps) (hk : Apart known) {r r' : Rule} (hr : known r)
    {p : Passage} (hp : p ∈ ps) (hi : p.IsImportOf r') : ¬ r.variableName <:+: classImport r' := by
  intro h
  have hname := (hk.wellNamed r hr).variableName
  have hfront := hl.not_in_importFront hk hr hp hi
  rw [classImport_eq, Text.infix_append_cons_iff (hname.notMem (by decide)),
    Text.infix_append_cons_iff (hname.notMem (by decide))] at h
  rcases h with h | h | h
  · exact hfront (h.trans (importWord_prefix_staticKeyword.trans (List.prefix_append _ _)).isInfix)
  · exact hfront (h.trans (List.suffix_append _ _).isInfix)
  · exact hk.not_in_class r hr r' (hl.known_of_isImportOf hp hi) h

/-- A variable that begins in a call is the key of the call, with its quote before it. -/
theorem variable_in_call (hk : Apart known) {r r' : Rule} (hr : known r) (hr' : known r')
    {u w : Text} (h : r'.call = u ++ r.variableName ++ w) : ∃ z, u = z ++ ['"'] := by
  rcases (hk.wellNamed r' hr').name_in_call (hk.wellNamed r hr).variableName h with
    ⟨_, hclass, _⟩ | ⟨_, _, _, hlookup, _⟩ | ⟨u', v, rfl, hkey, _⟩
  · exact absurd ⟨_, _, hclass.symm⟩ (hk.not_in_class r hr r' hr')
  · exact absurd ⟨_, _, hlookup.symm⟩ (hk.not_in_lookup r hr)
  · -- a variable in the key is the whole key
    obtain rfl := hk.eq_of_infix r hr r' hr' ⟨_, _, hkey.symm⟩
    have hlen := congrArg List.length hkey
    simp only [List.length_append] at hlen
    obtain rfl : u' = [] := List.length_eq_zero_iff.mp (by omega)
    exact ⟨r.className ++ '.' :: (lookupName ++ ['(']), by simp⟩

/-- A variable that begins in a passage which is as it was began there from the start. -/
theorem prefix_text_of_prefix_render (hl : Layout known ps) (hk : Apart known)
    {before after : List Passage} {p : Passage} (hsplit : ps = before ++ p :: after) {w u v : Text}
    (hw : IsName w) (hp : p.text = u ++ v) (hv : v ≠ [])
    (h : w <+: v ++ after.flatMap (Passage.render done)) :
    w <+: v ++ after.flatMap Passage.text := by
  refine Text.prefix_flatMap_of_barrier (fun a₁ q a₂ hq => ?_) h
  have hsplit' : ps = (before ++ p :: a₁) ++ q :: a₂ := by simp [hsplit, hq]
  cases hd : done q with
  | false => exact Or.inl (by simp [Passage.render, hd])
  | true =>
    have hrender : q.render done = q.converted := by simp [Passage.render, hd]
    rw [hrender]
    cases q with
    | free t => exact Or.inl rfl
    | starImport r =>
      obtain ⟨y, hy⟩ := importWord_prefix_staticKeyword.trans (staticKeyword_prefix_starImport r)
      exact Or.inr (Or.inl ⟨_, ' ', _, y, hw.notMem (by decide), classImport_eq r, hy.symm⟩)
    | variableImport r =>
      have hr := hl.wellNamed hk (.variableImport r) (by rw [hsplit']; simp) r rfl
      obtain ⟨y, hy⟩ :=
        importWord_prefix_staticKeyword.trans (staticKeyword_prefix_variableImport hr)
      exact Or.inr (Or.inl ⟨_, ' ', _, y, hw.notMem (by decide), classImport_eq r, hy.symm⟩)
    | use r =>
      -- a name does not reach over the edge before a use
      have hplaced : Placed (before ++ p :: a₁) a₂ (.use r) := hl.placed _ _ _ hsplit'
      obtain ⟨c, hlast, hc⟩ := (Option.any_eq_true _ _).mp hplaced.1
      have hname : isNameChar c = false := by
        simp only [isLeftEdge, Bool.and_eq_true, Bool.not_eq_true'] at hc
        exact hc.1.1
      have hmove : (before ++ p :: a₁).flatMap Passage.text =
          (before.flatMap Passage.text ++ u) ++ (v ++ a₁.flatMap Passage.text) := by
        rw [List.flatMap_append, List.flatMap_cons, hp]
        simp
      rw [hmove, List.getLast?_append_of_ne_nil _ (by simp [hv])] at hlast
      obtain ⟨z, hz⟩ := List.getLast?_eq_some_iff.mp hlast
      exact Or.inr (Or.inr ⟨z, c, hw.notMem hname, hz⟩)

/-- **Where variables occur.** At every moment of a conversion a variable is found in a use of its
own that is not converted yet, at the end of its import that is not converted yet, or behind a
quote. -/
theorem variable_in_render (hl : Layout known ps) (hk : Apart known) {r : Rule} (hr : known r)
    {a b : Text} (h : ps.flatMap (Passage.render done) = a ++ r.variableName ++ b) :
    (∃ before after, ps = before ++ .use r :: after ∧ done (.use r) = false ∧
      a = before.flatMap (Passage.render done)) ∨
    (∃ before after, ps = before ++ .variableImport r :: after ∧ done (.variableImport r) = false ∧
      a = before.flatMap (Passage.render done) ++ importFront r) ∨
    ∃ z, a = z ++ ['"'] := by
  have hname := (hk.wellNamed r hr).variableName
  obtain ⟨before, p, after, u, v, hsplit, hp, hv, ha, hb⟩ :=
    Text.flatMap_eq_append_occurrence hname.1 h
  have hfront : r.variableName <+: v ++ after.flatMap (Passage.render done) := ⟨b, hb.symm⟩
  have hkept : p.text = u ++ v →
      p = .use r ∧ u = [] ∨ p = .variableImport r ∧ u = importFront r := by
    intro ht
    obtain ⟨b', hb'⟩ := hl.prefix_text_of_prefix_render hk hsplit hname ht hv hfront
    exact hl.variable_in_text hk hr hsplit ht hv hb'.symm
  cases hd : done p with
  | false =>
    rw [Passage.render, hd] at hp
    rcases hkept hp with ⟨rfl, rfl⟩ | ⟨rfl, rfl⟩
    · exact Or.inl ⟨before, after, hsplit, hd, by simpa using ha⟩
    · exact Or.inr (Or.inl ⟨before, after, hsplit, hd, ha⟩)
  | true =>
    rw [Passage.render, hd] at hp
    have himport : ∀ r', p.IsImportOf r' → classImport r' ≠ u ++ v := by
      intro r' hi heq
      have hsemicolon : ∃ y, after.flatMap (Passage.render done) = ';' :: y :=
        hl.semicolon_after hk hsplit hi
      obtain ⟨y, hy⟩ := hsemicolon
      rw [hy] at hfront
      have hin := Text.prefix_of_prefix_append_cons (hname.notMem (by decide)) hfront
      refine hl.not_in_classImport hk hr (by simp [hsplit]) hi ?_
      rw [heq]
      exact hin.isInfix.trans (List.suffix_append u v).isInfix
    cases p with
    | free t => rcases hkept hp with ⟨hfree, _⟩ | ⟨hfree, _⟩ <;> cases hfree
    | starImport r' => exact absurd hp (himport r' (Or.inl rfl))
    | variableImport r' => exact absurd hp (himport r' (Or.inr rfl))
    | use r' =>
      have hr' := hl.known_of_use (r := r') (by simp [hsplit])
      -- the call ends in a parenthesis, so the variable lies inside it
      obtain ⟨v', c, rfl⟩ := (List.eq_nil_or_concat v).resolve_left hv
      have hcall : r'.call = (u ++ v') ++ [c] := by
        rw [List.append_assoc, ← List.concat_eq_append]
        exact hp
      obtain ⟨z, hz⟩ := (hk.wellNamed r' hr').exists_call_eq_append
      obtain rfl : c = ')' := List.singleton_inj.mp (List.append_inj' (hcall.symm.trans hz) rfl).2
      rw [List.concat_eq_append, List.append_assoc] at hfront
      obtain ⟨w, rfl⟩ := Text.prefix_of_prefix_append_cons (hname.notMem (by decide)) hfront
      obtain ⟨z, rfl⟩ := variable_in_call hk hr hr' (u := u) (w := w ++ [')']) (by rw [hcall]; simp)
      exact Or.inr (Or.inr ⟨before.flatMap (Passage.render done) ++ z, by rw [ha]; simp⟩)

/-! ## Where imports of everything occur -/

theorem star_notMem_converted {p : Passage} {r : Rule} (hp : r ∈ p.rule?) (hr : r.WellNamed) :
    '*' ∉ p.converted := by
  have hclass : '*' ∉ classImport r := by
    have hw : '*' ∉ importWord := by decide
    rw [classImport_eq]
    simp [hw, hr.package.notMem (c := '*') (by decide) (by decide),
      hr.className.notMem (c := '*') (by decide)]
  have hcall : '*' ∉ r.call := by
    have hlookup : '*' ∉ lookupName := by decide
    rw [hr.call_eq]
    simp [hlookup, hr.className.notMem (c := '*') (by decide),
      hr.variableName.notMem (c := '*') (by decide)]
  cases p with
  | free t => simp [Passage.rule?] at hp
  | starImport r' =>
    obtain rfl : r' = r := by simpa [Passage.rule?] using hp
    exact hclass
  | variableImport r' =>
    obtain rfl : r' = r := by simpa [Passage.rule?] using hp
    exact hclass
  | use r' =>
    obtain rfl : r' = r := by simpa [Passage.rule?] using hp
    exact hcall

/-- A passage that shows a star is free text, or an import that is not converted yet. -/
theorem text_of_star_mem_render (hl : Layout known ps) (hk : Apart known) {p : Passage}
    (hp : p ∈ ps) (h : '*' ∈ p.render done) :
    p.render done = p.text ∧ ∀ r, p.IsStarOf r → done p = false := by
  cases hd : done p with
  | false => exact ⟨by rw [Passage.render, hd]; rfl, fun _ _ => rfl⟩
  | true =>
    rw [Passage.render, hd] at h ⊢
    cases hrule : p.rule? with
    | some r => exact absurd h (star_notMem_converted hrule (hl.wellNamed hk p hp r hrule))
    | none =>
      cases p with
      | free t => exact ⟨rfl, fun _ hstar => hstar.elim⟩
      | starImport r => simp [Passage.rule?] at hrule
      | variableImport r => simp [Passage.rule?] at hrule
      | use r => simp [Passage.rule?] at hrule

/-- The front of an import at the end of a text was there before passages in the text were
converted. -/
theorem suffix_text_of_suffix_render (hl : Layout known ps) (hk : Apart known)
    {before after : List Passage} {p : Passage} (hsplit : ps = before ++ p :: after) {r : Rule}
    (hr : known r) {u v : Text} (hp : p.text = u ++ '*' :: v)
    (h : importFront r <:+ before.flatMap (Passage.render done) ++ u) :
    importFront r <:+ before.flatMap Passage.text ++ u := by
  have hfront : ∀ c, isNameChar c = false → c ≠ '.' → c ∉ staticKeyword → c ∉ importFront r :=
    fun c => notMem_importFront (hk.wellNamed r hr)
  refine Text.suffix_flatMap_of_barrier (fun b₁ q b₂ hq => ?_) h
  have hsplit' : ps = b₁ ++ q :: (b₂ ++ p :: after) := by simp [hsplit, hq]
  -- behind an import there is its semicolon
  have himport : ∀ r', q.IsImportOf r' →
      ∃ c z, c ∉ importFront r ∧ b₂.flatMap Passage.text ++ u = c :: z := by
    intro r' hi
    have hhead : ((b₂ ++ p :: after).flatMap Passage.text).head? = some ';' := by
      rcases hi with rfl | rfl <;> exact hl.placed _ _ _ hsplit'
    rw [List.flatMap_append, List.flatMap_cons, hp, ← List.append_assoc,
      ← List.append_assoc] at hhead
    cases hz : b₂.flatMap Passage.text ++ u with
    | nil => simp [hz] at hhead
    | cons c z =>
      obtain rfl : c = ';' := by simpa [hz] using hhead
      exact ⟨';', z, hfront _ (by decide) (by decide) (by decide), rfl⟩
  cases hd : done q with
  | false => exact Or.inl (by rw [Passage.render, hd]; rfl)
  | true =>
    rw [Passage.render, hd]
    cases q with
    | free t => exact Or.inl rfl
    | starImport r' => exact Or.inr (Or.inr (himport r' (Or.inl rfl)))
    | variableImport r' => exact Or.inr (Or.inr (himport r' (Or.inr rfl)))
    | use r' =>
      obtain ⟨z, hz⟩ :=
        (hk.wellNamed r' (hl.known_of_use (by simp [hsplit']))).exists_call_eq_append
      exact Or.inr (Or.inl ⟨z, ')', hfront _ (by decide) (by decide) (by decide), hz⟩)

/-- **Where imports of everything occur**: only where they are passages. -/
theorem star_in_render (hl : Layout known ps) (hk : Apart known) {r : Rule} (hr : known r)
    {a b : Text} (h : ps.flatMap (Passage.render done) = a ++ starImport r ++ b) :
    ∃ before p after, ps = before ++ p :: after ∧ p.IsStarOf r ∧ done p = false ∧
      a = before.flatMap (Passage.render done) := by
  have hstar : ps.flatMap (Passage.render done) = (a ++ importFront r) ++ '*' :: b := by
    rw [h, starImport_eq_front]
    simp
  obtain ⟨before, p, after, u, v, hsplit, hp, hleft, _⟩ := Text.flatMap_eq_append_cons hstar
  obtain ⟨hkept, hundone⟩ :=
    hl.text_of_star_mem_render hk (p := p) (by simp [hsplit]) (by rw [hp]; simp)
  rw [hkept] at hp
  obtain ⟨a', ha'⟩ := hl.suffix_text_of_suffix_render hk hsplit hr hp ⟨a, hleft⟩
  have htext :
      ps.flatMap Passage.text = a' ++ starImport r ++ (v ++ after.flatMap Passage.text) := by
    rw [hsplit, List.flatMap_append, List.flatMap_cons, hp, starImport_eq_front]
    calc
      _ = (before.flatMap Passage.text ++ u) ++ '*' :: (v ++ after.flatMap Passage.text) := by simp
      _ = _ := by rw [← ha']; simp
  obtain ⟨b₁, q, b₂, hq, hkind, rfl⟩ := hl.star_occurrence r hr _ _ htext
  have hlen : (importFront r).length < q.text.length := by
    cases q with
    | starImport r' =>
      rw [Passage.text, show starImport r' = starImport r from hkind, starImport_eq_front]
      simp
    | free t => exact hkind.elim
    | variableImport r' => exact hkind.elim
    | use r' => exact hkind.elim
  obtain ⟨_, rfl, _, rfl⟩ :=
    Text.part_unique (hsplit.symm.trans hq) (by rw [hp]; simp) hlen ha'.symm
  exact ⟨before, p, after, hsplit, hkind, hundone r hkind, List.append_cancel_right hleft⟩

end Layout

end NlsBundle.Usage
