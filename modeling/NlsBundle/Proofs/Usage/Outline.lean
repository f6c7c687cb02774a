import NlsBundle.Proofs.Usage.Step

/-!
# What a conversion cannot take back

The opening parentheses and the semicolons of a text are its outline. Nothing that a rule replaces
has any of them, and every call that it puts in has a parenthesis. So an outline only grows
(`grows_step`, `grows_starStep`): a call that was put into a wrong place is there at the end too.
`scan_inserts` and `replaceAll_inserts` say where a parenthesis is added.
-/

namespace NlsBundle.Usage

/-- Opening parentheses and semicolons. -/
def isMark (c : Char) : Bool := c == '(' || c == ';'

/-- The marks of a text, in their order. -/
def outline (t : Text) : Text := t.filter isMark

@[simp] theorem outline_append (a b : Text) : outline (a ++ b) = outline a ++ outline b :=
  List.filter_append a b

@[simp] theorem outline_cons_mark {c : Char} (hc : isMark c = true) (t : Text) :
    outline (c :: t) = c :: outline t :=
  List.filter_cons_of_pos hc

theorem outline_eq_nil {t : Text} (hopen : '(' ∉ t) (hsemicolon : ';' ∉ t) : outline t = [] := by
  refine List.filter_eq_nil_iff.mpr fun c hc hmark => ?_
  rcases Bool.or_eq_true_iff.mp hmark with h | h
  · exact hopen (eq_of_beq h ▸ hc)
  · exact hsemicolon (eq_of_beq h ▸ hc)

theorem outline_name {t : Text} (h : IsName t) : outline t = [] :=
  outline_eq_nil (h.notMem (by decide)) (h.notMem (by decide))

theorem outline_cons_name {c : Char} (hc : isNameChar c = true) (t : Text) :
    outline (c :: t) = outline t := by
  have hmark : isMark c = false := by
    cases hm : isMark c with
    | false => rfl
    | true =>
      rcases Bool.or_eq_true_iff.mp hm with h | h <;> rw [eq_of_beq h] at hc <;>
        exact absurd hc (by decide)
  exact List.filter_cons_of_neg (by simp [hmark])

/-- A call has one mark. -/
theorem outline_call {r : Rule} (hr : r.WellNamed) : outline r.call = ['('] := by
  have hlookup : outline lookupName = [] := by decide
  have hdot : outline ['.'] = [] := by decide
  have hquote : outline ['"'] = [] := by decide
  have hclose : outline ['"', ')'] = [] := by decide
  have hcall : r.call = r.className ++
      (['.'] ++ (lookupName ++ ('(' :: (['"'] ++ (r.variableName ++ ['"', ')']))))) :=
    hr.call_eq
  rw [hcall]
  simp only [outline_append, outline_name hr.className, outline_name hr.variableName, hlookup, hdot,
    hquote, hclose, outline_cons_mark (show isMark '(' = true from by decide), List.nil_append,
    List.append_nil]

theorem outline_usage {r : Rule} (hr : r.WellNamed) : outline r.usage = [] := by
  refine outline_eq_nil ?_ ?_ <;> rw [hr.usage_eq] <;>
    simp [hr.className.notMem (by decide : isNameChar '(' = false),
      hr.variableName.notMem (by decide : isNameChar '(' = false),
      hr.className.notMem (by decide : isNameChar ';' = false),
      hr.variableName.notMem (by decide : isNameChar ';' = false)]

theorem outline_package {r : Rule} (hr : r.WellNamed) : outline r.package = [] :=
  outline_eq_nil (hr.package.notMem (by decide) (by decide))
    (hr.package.notMem (by decide) (by decide))

/-- Imports have no marks. -/
theorem outline_importedClass {r : Rule} (hr : r.WellNamed) :
    outline (staticKeyword ++ r.package ++ '.' :: r.className) = [] := by
  have hkeyword : outline staticKeyword = [] := by decide
  have hdot : outline ('.' :: r.className) = outline r.className :=
    List.filter_cons_of_neg (by decide)
  rw [outline_append, outline_append, hdot, hkeyword, outline_package hr, outline_name hr.className]
  rfl

theorem outline_classImport {r : Rule} (hr : r.WellNamed) : outline (classImport r) = [] := by
  have hword : outline (importWord ++ [' ']) = [] := by decide
  have hdot : outline ('.' :: r.className) = outline r.className :=
    List.filter_cons_of_neg (by decide)
  rw [classImport_eq, List.append_cons, outline_append (importWord ++ [' ']), hword, outline_append,
    outline_package hr, hdot, outline_name hr.className]
  rfl

theorem outline_variableImport {r : Rule} (hr : r.WellNamed) : outline (variableImport r) = [] := by
  have hdot : outline ('.' :: r.variableName) = outline r.variableName :=
    List.filter_cons_of_neg (by decide)
  rw [variableImport_eq hr, outline_append, outline_importedClass hr, hdot,
    outline_name hr.variableName]
  rfl

theorem outline_starImport {r : Rule} (hr : r.WellNamed) : outline (starImport r) = [] := by
  have hend : outline ['.', '*'] = [] := by decide
  rw [starImport_eq, outline_append, outline_importedClass hr, hend]
  rfl

/-! ## Growth -/

/-- The text begins with a character of a name. -/
def OpensWithName (t : Text) : Prop := ∃ c u, t = c :: u ∧ isNameChar c = true

theorem opensWithName_call {r : Rule} (hr : r.WellNamed) : OpensWithName r.call := by
  obtain ⟨c, v, hclass, hc⟩ := hr.className.exists_eq_cons
  rw [hr.call_eq, hclass]
  exact ⟨c, _, rfl, hc⟩

/-- One text comes from another without loss: a text that begins with a name goes on beginning with
one, and keeps its marks. -/
def Grows (t t' : Text) : Prop :=
  OpensWithName t → OpensWithName t' ∧ (outline t).Sublist (outline t')

theorem Grows.refl (t : Text) : Grows t t := fun h => ⟨h, List.Sublist.refl _⟩

theorem Grows.trans {t t' t'' : Text} (h : Grows t t') (h' : Grows t' t'') : Grows t t'' := by
  intro ho
  obtain ⟨ho', hs⟩ := h ho
  obtain ⟨ho'', hs'⟩ := h' ho'
  exact ⟨ho'', hs.trans hs'⟩

theorem outline_replaceAll {piece : Text} (hp : piece ≠ []) (ho : outline piece = [])
    (new t : Text) :
    (outline t).Sublist (outline (Text.replaceAll t piece new)) := by
  induction hn : t.length using Nat.strong_induction_on generalizing t with
  | _ n ih =>
    rcases Text.replaceAll_cases hp new t with ⟨_, hself⟩ | ⟨a, b, rfl, _, hrep⟩
    · rw [hself]
    · have hlen : b.length < n := by
        have := List.length_pos_of_ne_nil hp
        simp only [List.length_append] at hn
        omega
      rw [hrep]
      simp only [outline_append, ho, List.nil_append, List.append_assoc]
      exact (List.Sublist.refl _).append
        ((ih b.length hlen b rfl).trans (List.sublist_append_right _ _))

theorem grows_replaceAll {piece new : Text} (hp : piece ≠ []) (ho : outline piece = [])
    (hnew : OpensWithName new) (t : Text) : Grows t (Text.replaceAll t piece new) := by
  intro hopens
  refine ⟨?_, outline_replaceAll hp ho new t⟩
  rcases Text.replaceAll_cases hp new t with ⟨_, hself⟩ | ⟨a, b, ht, _, hrep⟩
  · rwa [hself]
  · rw [hrep]
    cases a with
    | nil =>
      obtain ⟨c, u, rfl, hc⟩ := hnew
      exact ⟨c, _, rfl, hc⟩
    | cons c a =>
      obtain ⟨c', u, hcu, hc⟩ := hopens
      rw [ht] at hcu
      obtain ⟨rfl, _⟩ := List.cons.inj hcu
      exact ⟨c, _, rfl, hc⟩

theorem outline_scan {v : Text} (ho : outline v = []) (call t : Text) :
    (outline t).Sublist (outline (scan v call t)) := by
  induction hn : t.length using Nat.strong_induction_on generalizing t with
  | _ n ih =>
    rcases scan_cases v call t with ⟨_, hself⟩ | ⟨a, c, d, rest, rfl, _, hscan⟩
    · rw [hself]
    · have hlen : (d :: rest).length < n := by
        simp only [List.length_append, List.length_cons] at hn ⊢
        omega
      have htail := ih _ hlen (d :: rest) rfl
      rw [hscan, List.append_cons, List.append_cons a c (call ++ _), outline_append (a ++ [c]),
        outline_append v, outline_append (a ++ [c]), outline_append call, ho, List.nil_append]
      exact (List.Sublist.refl _).append (htail.trans (List.sublist_append_right _ _))

theorem grows_scan {v : Text} (ho : outline v = []) (call t : Text) : Grows t (scan v call t) := by
  rintro ⟨c, u, rfl, hc⟩
  refine ⟨?_, outline_scan ho call (c :: u)⟩
  rw [scan_cons]
  split
  · exact ⟨c, _, rfl, hc⟩
  · exact ⟨c, _, rfl, hc⟩

/-- Only the first character is lost at the front, and it is no mark. -/
theorem grows_replaceFront {v call : Text} (ho : outline v = []) (hcall : OpensWithName call)
    (t : Text) :
    Grows t (replaceFront v call t) := by
  rintro ⟨c, u, rfl, hc⟩
  cases ha : Text.after? v u with
  | none =>
    rw [replaceFront, ha]
    exact Grows.refl _ ⟨c, u, rfl, hc⟩
  | some rest =>
    rw [replaceFront, ha]
    dsimp only
    split
    · exact Grows.refl _ ⟨c, u, rfl, hc⟩
    · obtain ⟨d, z, rfl, hd⟩ := hcall
      refine ⟨⟨d, _, rfl, hd⟩, ?_⟩
      rw [outline_cons_name hc, Text.after?_eq_some_iff.mp ha, outline_append, outline_append, ho]
      exact List.sublist_append_right _ _

namespace Progress

variable {r : Rule} (hr : r.WellNamed)
include hr

theorem grows_spliceUses (s : Progress) : Grows s.content (s.spliceUses r).content := by
  unfold spliceUses
  split
  · exact Grows.refl _
  · have hname := outline_name hr.variableName
    exact (grows_scan hname r.call _).trans (grows_replaceFront hname (opensWithName_call hr) _)

omit hr in
theorem grows_replace_import {piece : Text} (hp : piece ≠ []) (ho : outline piece = [])
    (s : Progress) :
    Grows s.content (s.replace piece (classImport r)).content :=
  grows_replaceAll hp ho ⟨'i', _, rfl, by decide⟩ _

theorem grows_takeVariableImport (s : Progress) :
    Grows s.content (s.takeVariableImport r).content := by
  unfold takeVariableImport
  split
  · have hne : variableImport r ≠ [] :=
      List.ne_nil_of_mem ((staticKeyword_prefix_variableImport hr).subset
      (by decide : ' ' ∈ staticKeyword))
    exact (grows_replace_import hne (outline_variableImport hr) s).trans (grows_spliceUses hr _)
  · exact Grows.refl _

theorem grows_takeStarUses (s : Progress) : Grows s.content (s.takeStarUses r).content := by
  unfold takeStarUses
  split
  · exact grows_spliceUses hr s
  · exact Grows.refl _

theorem grows_convertQualified (s : Progress) : Grows s.content (s.convertQualified r).content := by
  unfold convertQualified
  split
  · exact grows_replaceAll hr.usage_ne_nil (outline_usage hr) (opensWithName_call hr) _
  · exact Grows.refl _

/-- A rule takes no mark away. -/
theorem grows_step (s : Progress) : Grows s.content (s.step r).content :=
  ((grows_takeVariableImport hr s).trans (grows_takeStarUses hr _)).trans
    (grows_convertQualified hr _)

theorem grows_starStep (s : Progress) : Grows s.content (s.starStep r).content := by
  unfold starStep
  split
  · have hne : starImport r ≠ [] := List.ne_nil_of_mem ((staticKeyword_prefix_starImport r).subset
      (by decide : ' ' ∈ staticKeyword))
    exact grows_replace_import hne (outline_starImport hr) s
  · exact Grows.refl _

end Progress

/-! ## Where a parenthesis is added -/

/-- The first use of a text, which is this one or comes before it, becomes a call. -/
theorem scan_inserts {r : Rule} (hr : r.WellNamed) {v : Text} (ho : outline v = []) {a b : Text}
    {c d : Char} (hdot : c ≠ '.') (hquote : c ≠ '"') (hd : d ≠ '"') :
    ∃ x y, a ++ c :: (v ++ d :: b) = x ++ y ∧ x <+: a ++ [c] ∧
      (outline x ++ '(' :: outline y).Sublist
        (outline (scan v r.call (a ++ c :: (v ++ d :: b)))) := by
  rcases scan_cases v r.call (a ++ c :: (v ++ d :: b)) with
    ⟨hnone, _⟩ | ⟨a₀, c₀, d₀, b₀, ht, hfree, hscan⟩
  · exact absurd ⟨c, d, b, rfl, hdot, hquote, hd⟩ (hnone a _ rfl)
  · have hle : a₀.length ≤ a.length := by
      by_contra hlt
      rcases List.append_eq_append_iff.mp ht with ⟨z, hz, hrest⟩ | ⟨z, hz, _⟩
      · refine hfree a z hz ?_ ⟨c, d, b, hrest.symm, hdot, hquote, hd⟩
        rintro rfl
        simp [hz] at hlt
      · rw [hz, List.length_append] at hlt
        omega
    refine ⟨a₀ ++ [c₀], v ++ d₀ :: b₀, by rw [ht]; simp, ?_, ?_⟩
    · have hfirst : a₀ ++ [c₀] <+: a ++ c :: (v ++ d :: b) := ⟨v ++ d₀ :: b₀, by rw [ht]; simp⟩
      have hthis : a ++ [c] <+: a ++ c :: (v ++ d :: b) := ⟨v ++ d :: b, by simp⟩
      exact List.prefix_of_prefix_length_le hfirst hthis (by simpa using hle)
    · have hinsert : scan v r.call (a ++ c :: (v ++ d :: b)) =
          (a₀ ++ [c₀]) ++ (r.call ++ scan v r.call (d₀ :: b₀)) := by
        rw [hscan]
        simp
      rw [hinsert, outline_append (a₀ ++ [c₀]), outline_append r.call, outline_append v, ho,
        outline_call hr]
      exact (List.Sublist.refl _).append ((outline_scan ho r.call (d₀ :: b₀)).cons_cons '(')

theorem replaceAll_inserts {r : Rule} (hr : r.WellNamed) {t : Text} (h : r.usage <:+: t) :
    ∃ x y, t = x ++ y ∧
      (outline x ++ '(' :: outline y).Sublist (outline (Text.replaceAll t r.usage r.call)) := by
  have hne := hr.usage_ne_nil
  rcases Text.replaceAll_cases hne r.call t with ⟨hnot, _⟩ | ⟨a, b, rfl, _, hrep⟩
  · exact absurd h hnot
  · refine ⟨a, r.usage ++ b, by simp, ?_⟩
    rw [hrep, outline_append (a ++ r.call), outline_append a, outline_append r.usage,
      outline_usage hr, outline_call hr, List.append_assoc]
    exact (List.Sublist.refl _).append
      ((outline_replaceAll hne (outline_usage hr) r.call b).cons_cons '(')

end NlsBundle.Usage
