import NlsBundle.Proofs.MessageClass.Edit
import NlsBundle.Proofs.Settings.Reading

/-!
# Reading back adapted classes

A class that a conversion run has adapted keeps its entry: a setup run finds the package, the class
and the bundle that the class declared. Proved here:

* `Kept`, `kept_infix`, `kept_package`: the edits make no new rows of the kinds that are looked for;
* `replaceAll_headLine`: the line of the class loses its base class and nothing else;
* `survives_package`, `survives_class`, `survives_bundle`: what is read from each of the three lines
  survives the edits;
* `holds_of_outcome_adaptClass`: a class that has been adapted is in its file;
* `readEntry_of_adaptClass`: what a conversion run writes, a setup run reads back.
-/

namespace NlsBundle.BundleEntry

open Text MessageClass

/-! ## Rows that the edits make -/

/-- A kind of rows of which the edits make no new ones. -/
structure Kept (kind : Text → Prop) : Prop where
  append : ∀ x y, kind x → kind (x ++ y)
  of_import : ∀ i ∈ resolverImports, ∀ u w, kind (u ++ i ++ [';']) →
    kind (u ++ baseClassImport ++ w)
  of_baseClassImport : ∀ u w, kind (baseClassImport ++ w) → kind (u ++ baseClassImport ++ w)
  not_method : ∀ row ∈ rows lookupMethod, ¬ kind row

theorem Kept.of_mem_importRows {kind : Text → Prop} (h : Kept kind) {u w row : Text}
    (hrow : row ∈ importRows u w) (hkind : kind row) : kind (u ++ baseClassImport ++ w) := by
  rcases List.mem_append.mp hrow with hrow | hrow
  · obtain ⟨x, hx, rfl⟩ := List.mem_map.mp hrow
    rcases mem_or_of_mem_modifyHead hx with hi | ⟨i, hi, rfl⟩
    · exact h.of_baseClassImport u w (h.of_import x hi [] w hkind)
    · exact h.of_import i hi u w hkind
  · rw [List.mem_singleton.mp hrow] at hkind
    exact h.of_baseClassImport u w hkind

theorem exists_eq_import {i : Text} (hi : i ∈ resolverImports) : ∃ y, i = 'i' :: 'm' :: y := by
  have hfront := (resolverImports_chars i hi).2.1
  refine ⟨i.drop 2, ?_⟩
  rw [← List.take_append_drop 2 i, hfront]
  simp

theorem baseClassImport_eq : baseClassImport = 'i' :: 'm' :: baseClassImport.drop 2 := by decide

/-- The pieces of text by which rows are told apart. -/
def marks : List Text := [staticBlockStart, baseClassClause, bundleDeclaration, classDeclaration]

/-- No piece reaches across an `m`, and each has a character that the new imports lack. -/
theorem marks_chars :
    ∀ piece ∈ marks, 'm' ∉ piece ∧ ('{' ∈ piece ∨ 'N' ∈ piece ∨ 'b' ∈ piece) := by decide

theorem exists_lacked {piece i : Text} (hpiece : piece ∈ marks) (hi : i ∈ resolverImports) :
    ∃ c ∈ piece, c ∉ i ∧ c ≠ ';' := by
  obtain ⟨_, _, hbrace, hn, hb⟩ := resolverImports_chars i hi
  rcases (marks_chars piece hpiece).2 with hc | hc | hc
  · exact ⟨'{', hc, hbrace, by decide⟩
  · exact ⟨'N', hc, hn, by decide⟩
  · exact ⟨'b', hc, hb, by decide⟩

theorem lookupMethod_rows :
    ∀ row ∈ rows lookupMethod, (∀ piece ∈ marks, ¬ piece <:+: row) ∧
      ¬ packageWord <+: trim row := by
  decide +kernel

theorem kept_infix {piece : Text} (hpiece : piece ∈ marks) : Kept (piece <:+: ·) where
  append x y h := List.infix_append_of_infix_left h
  of_import i hi u w h := by
    have hm := (marks_chars piece hpiece).1
    obtain ⟨c, hmem, hlacks, hne⟩ := exists_lacked hpiece hi
    obtain ⟨y, rfl⟩ := exists_eq_import hi
    have hsplit : u ++ 'i' :: 'm' :: y ++ [';'] = (u ++ ['i']) ++ 'm' :: (y ++ [';']) := by simp
    rw [hsplit, infix_append_cons_iff hm] at h
    rcases h with h | h
    · rw [baseClassImport_eq]
      exact h.trans ⟨[], 'm' :: baseClassImport.drop 2 ++ w, by simp⟩
    · have hy : c ∈ y := by simpa [hne] using h.subset hmem
      exact absurd (by simp [hy]) hlacks
  of_baseClassImport u w h := by
    rw [List.append_assoc]
    exact List.infix_append_of_infix_right h
  not_method row hrow := (lookupMethod_rows row hrow).1 piece hpiece

theorem kept_block : Kept (staticBlockStart <:+: ·) := kept_infix (by simp [marks])

theorem kept_clause : Kept (baseClassClause <:+: ·) := kept_infix (by simp [marks])

theorem kept_bundle : Kept (bundleDeclaration <:+: ·) := kept_infix (by simp [marks])

theorem kept_class : Kept (classDeclaration <:+: ·) := kept_infix (by simp [marks])

theorem kept_package : Kept (fun row => packageWord <+: trim row) where
  append _ y h := packageWord_prefix_append h y
  of_import i hi u w h := by
    obtain ⟨y, rfl⟩ := exists_eq_import hi
    have hsplit : u ++ 'i' :: 'm' :: y ++ [';'] = (u ++ ['i']) ++ 'm' :: (y ++ [';']) := by simp
    rw [hsplit] at h
    have hfront : packageWord <+: trim (u ++ ['i']) :=
      prefix_trim_of_append_cons packageWord_solid (by decide) (by decide) h
    have happend := packageWord_prefix_append hfront ('m' :: baseClassImport.drop 2 ++ w)
    rw [baseClassImport_eq]
    simpa using happend
  of_baseClassImport u w h := by
    rw [baseClassImport_eq] at h
    have hfront : packageWord <+: trim ['i'] :=
      prefix_trim_of_append_cons (c := 'm')
        (y := baseClassImport.drop 2 ++ w) packageWord_solid (by decide) (by decide) h
    exact absurd hfront (by decide)
  not_method row hrow := (lookupMethod_rows row hrow).2

/-! ## The line of the class -/

/-- The line of a class that still has its base class. -/
def headLine (className : Text) : Text :=
  classDeclaration ++ (className ++ (baseClassClause ++ [' ', '{']))

theorem notMem_headLine {className : Text} (h : IsName className) {c : Char}
    (hname : isNameChar c = false) (hdeclaration : c ∉ classDeclaration)
    (hclause : c ∉ baseClassClause ++ [' ', '{']) : c ∉ headLine className := by
  rw [headLine, List.mem_append, List.mem_append]
  rintro (hc | hc | hc)
  · exact hdeclaration hc
  · exact h.notMem hname hc
  · exact hclause hc

theorem unbroken_headLine {className : Text} (h : IsName className) :
    Unbroken (headLine className) := by
  have hdeclaration : Unbroken classDeclaration := by decide
  have hclause : Unbroken (baseClassClause ++ [' ', '{']) := by decide
  intro c hc
  cases hend : isLineEnd c with
  | false => rfl
  | true =>
    have hname : isNameChar c = false := by
      cases hn : isNameChar c with
      | false => rfl
      | true => simpa [isBlank_of_isLineEnd hend] using isBlank_of_isNameChar hn
    exact absurd hc (notMem_headLine h hname (hdeclaration.notMem hend) (hclause.notMem hend))

theorem baseClassClause_eq :
    baseClassClause = ' ' :: ("extends".toList ++ ' ' :: "NLS".toList) := by decide

/-- The clause does not begin before its own place, not even if the class has its first word as a
name. -/
theorem frontFree_baseClassClause {className : Text} (h : IsName className) :
    FrontFree (baseClassClause <+: ·) (' ' :: className) (baseClassClause ++ [' ', '{']) := by
  have hspace : ' ' ∉ className := h.notMem (by decide)
  refine .cons ?_ ?_
  · rintro ⟨z, hz⟩
    rw [baseClassClause_eq] at hz
    have hrest : "extends".toList ++ ' ' :: ("NLS".toList ++ z) =
        className ++ ' ' :: ("extends".toList ++ ' ' :: "NLS".toList ++ [' ', '{']) := by
      simpa using hz
    have hwords := (append_cons_inj hrest (by decide) hspace).2
    simp at hwords
  · rintro a b rfl hb hfront
    obtain ⟨c, b, rfl⟩ := List.exists_cons_of_ne_nil hb
    rw [baseClassClause_eq, List.cons_append, List.cons_prefix_cons] at hfront
    exact hspace (by simp [← hfront.1])

theorem replaceAll_headLine {className : Text} (h : IsName className) :
    replaceAll (headLine className) baseClassClause [] = classLine className := by
  have hp := isPiece_baseClassClause.ne_nil
  have hdeclaration : classDeclaration = "public cl".toList ++ 'a' :: ['s', 's', ' '] := by decide
  have hsplit : headLine className =
      "public cl".toList ++
        'a' :: (('s' :: 's' :: ' ' :: className) ++ (baseClassClause ++ [' ', '{'])) := by
    rw [headLine, hdeclaration]
    simp
  have hs : ∀ y, ¬ baseClassClause <+: 's' :: y := by
    intro y hfront
    rw [baseClassClause_eq, List.cons_prefix_cons] at hfront
    exact absurd hfront.1 (by decide)
  have hpublic : replaceAll "public cl".toList baseClassClause [] = "public cl".toList := by decide
  have hend : replaceAll [' ', '{'] baseClassClause [] = [' ', '{'] := by decide
  rw [hsplit, replaceAll_append_cons hp (by decide), hpublic,
    replaceAll_append hp (.cons (hs _) (.cons (hs _) (frontFree_baseClassClause h))),
    replaceAll_piece_append hp, hend, classLine, hdeclaration]
  simp

/-! ## Rows that are kept -/

/-- The row has no static block, and the base class only if it is the line of the class. -/
structure Calm (className row : Text) : Prop where
  no_block : ¬ staticBlockStart <:+: row
  eq_headLine : baseClassClause <:+: row → row = headLine className

variable {className : Text}

theorem ne_headLine_of_import (h : IsName className) (u w : Text) :
    u ++ baseClassImport ++ w ≠ headLine className := by
  intro heq
  have hdot : '.' ∈ baseClassImport := by decide
  exact notMem_headLine h (c := '.') (by decide) (by decide) (by decide)
    (by rw [← heq]; simp [hdot])

theorem Calm.of_mem_importRows (hclass : IsName className) {u w row : Text}
    (h : Calm className (u ++ baseClassImport ++ w)) (hrow : row ∈ importRows u w) :
    Calm className row := by
  refine ⟨fun hin => h.no_block (kept_block.of_mem_importRows hrow hin), fun hin => ?_⟩
  exact absurd (h.eq_headLine (kept_clause.of_mem_importRows hrow hin))
    (ne_headLine_of_import hclass u w)

/-- Without its base class a calm row is the same, or the line of the class. -/
theorem Calm.replaceAll_cases (hclass : IsName className) {row : Text} (h : Calm className row) :
    (row ≠ headLine className ∧ replaceAll row baseClassClause [] = row) ∨
      (row = headLine className ∧ replaceAll row baseClassClause [] = classLine className) := by
  by_cases hrow : row = headLine className
  · exact Or.inr ⟨hrow, by rw [hrow, replaceAll_headLine hclass]⟩
  · exact Or.inl ⟨hrow, replaceAll_of_not_infix isPiece_baseClassClause.ne_nil fun hin =>
      hrow (h.eq_headLine hin)⟩

/-- What is read from a row of some shape survives the edits of a class, if it is the first row of
its kind. -/
theorem survives {f : Text → Option Text} {v : Text} {kind shape : Text → Prop}
    (hclass : IsName className) (hkept : Kept kind) (hf : Rowwise f)
    (hnone : ∀ x, ¬ kind x → f x = none)
    (hhead : ¬ kind (headLine className) → ¬ kind (classLine className))
    (himport : ∀ u w, shape (u ++ baseClassImport ++ w) →
      ∀ i ∈ resolverImports, shape (u ++ i ++ [';']))
    (hshape : ∀ x, shape x → Calm className x → f (replaceAll x baseClassClause []) = some v) :
    Survives f v (fun row => ¬ kind row ∧ Calm className row) fun row =>
      shape row ∧ Calm className row where
  no_block x hx := by
    rcases hx with ⟨_, hx⟩ | ⟨_, hx⟩
    · exact hx.no_block
    · exact hx.no_block
  import_passed u w h row hrow :=
    ⟨fun hkind => h.1 (hkept.of_mem_importRows hrow hkind), h.2.of_mem_importRows hclass hrow⟩
  import_marked u w h := by
    obtain ⟨i, hi, new, hrows⟩ := importRows_eq_cons u w
    have hcalm : Calm className (u ++ i ++ [';']) :=
      h.2.of_mem_importRows hclass (by rw [hrows]; exact List.mem_cons_self)
    rw [hrows]
    exact .here ⟨himport u w h.1 i hi, hcalm⟩
  method_passed row hrow := by
    refine ⟨hkept.not_method row hrow, kept_block.not_method row hrow, fun hin => ?_⟩
    exact absurd hin (kept_clause.not_method row hrow)
  read_blank := hf.of_blank
  read_passed x hx := by
    rcases hx.2.replaceAll_cases hclass with ⟨_, heq⟩ | ⟨rfl, heq⟩
    · rw [heq, hnone x hx.1]
    · rw [heq, hnone _ (hhead hx.1)]
  read_marked x hx := hshape x hx.1 hx.2

/-! ## The three lines -/

theorem ne_packageLine_of_import {package : Text} (h : IsPackage package) (u w : Text) :
    u ++ baseClassImport ++ w ≠ packageLine package := by
  intro heq
  have himport : baseClassImport = "import".toList ++ ' ' :: baseClassImport.drop 7 := by decide
  have hrest : ' ' ∉ package ++ [';'] := by simp [h.notMem (c := ' ') (by decide) (by decide)]
  -- the only space of the line stands after its first word
  have hsplit :
      packageWord ++ ' ' :: (package ++ [';']) =
        (u ++ "import".toList) ++ ' ' :: (baseClassImport.drop 7 ++ w) := by
    rw [himport] at heq
    simpa [packageLine] using heq.symm
  rw [List.append_cons_inj_of_notMem (by decide) hrest] at hsplit
  have hm : 'm' ∈ packageWord := by
    rw [hsplit.1]
    simp
  exact absurd hm (by decide)

theorem survives_package {package : Text} (hclass : IsName className) (hpackage : IsPackage package)
    (hword : ¬ packageWord <:+: package) :
    Survives packageOfLine? package (fun row => ¬ packageWord <+: trim row ∧ Calm className row)
      fun row => row = packageLine package ∧ Calm className row := by
  refine survives hclass kept_package rowwise_packageOfLine?
    (fun _ => packageOfLine?_eq_none_iff.mpr) ?_ ?_ ?_
  · intro _ hfront
    have hline :
        classLine className =
          ['p'] ++ 'u' :: (classDeclaration.drop 2 ++ (className ++ [' ', '{'])) := by
      have hdeclaration : classDeclaration = 'p' :: 'u' :: classDeclaration.drop 2 := by decide
      rw [classLine]
      nth_rewrite 1 [hdeclaration]
      rfl
    rw [hline] at hfront
    have hp : packageWord <+: trim ['p'] :=
      prefix_trim_of_append_cons packageWord_solid (by decide) (by decide) hfront
    exact absurd hp (by decide)
  · intro u w heq
    exact absurd heq (ne_packageLine_of_import hpackage u w)
  · rintro x rfl hcalm
    rcases hcalm.replaceAll_cases hclass with ⟨_, heq⟩ | ⟨hhead, _⟩
    · rw [heq, packageOfLine?_packageLine hpackage,
        replaceAll_of_not_infix isPiece_packageWord.ne_nil hword]
    · have hsemicolon : ';' ∈ headLine className := by simp [← hhead, packageLine]
      exact absurd hsemicolon (notMem_headLine hclass (by decide) (by decide) (by decide))

theorem survives_class (hclass : IsName className) :
    Survives classOfLine? className (fun row => ¬ classDeclaration <:+: row ∧ Calm className row)
      fun row => row = headLine className ∧ Calm className row := by
  refine survives hclass kept_class rowwise_classOfLine?
    (fun _ => classOfLine?_eq_none_iff.mpr) ?_ ?_ ?_
  · intro hnot
    exact absurd ⟨[], _, rfl⟩ hnot
  · intro u w heq
    exact absurd heq (ne_headLine_of_import hclass u w)
  · rintro x rfl hcalm
    rw [replaceAll_headLine hclass, classOfLine?_classLine hclass]

/-- An import in a line that declares a bundle is part of the remark after it. -/
theorem exists_remark_of_import {indent bundle tail u w : Text} (hindent : allBlank indent = true)
    (hbundle : IsPackage bundle) (htail : IsRemark tail)
    (h : bundleLine indent bundle tail = u ++ baseClassImport ++ w) :
    ∃ v, (∀ y, IsRemark (v ++ y)) ∧ ∀ y, u ++ y = bundleLine indent bundle (v ++ y) := by
  have hdot : '.' ∈ baseClassImport := by decide
  have hblank : ∀ t, allBlank t = true → ¬ baseClassImport <:+: t := fun t ht hin =>
    notMem_of_allBlank ht (by decide) (hin.subset hdot)
  have hfirst : ¬ baseClassImport <:+: indent ++ bundleDeclaration ++ [' '] := by
    intro hin
    have hdeclaration : '.' ∉ bundleDeclaration := by decide
    have hmem := hin.subset hdot
    simp [hdeclaration, notMem_of_allBlank hindent (c := '.') (by decide)] at hmem
  have hname : ¬ baseClassImport <:+: bundle := fun hin =>
    hbundle.notMem (c := ' ') (by decide) (by decide) (hin.subset (by decide))
  have hseparators :
      ∀ p ∈ [(indent ++ bundleDeclaration ++ [' '], '='), ([' '], '"'), (bundle, '"'), ([], ';')],
        p.2 ∉ baseClassImport ∧ ¬ baseClassImport <:+: p.1 := by
    simp only [List.forall_mem_cons]
    exact ⟨⟨by decide, hfirst⟩, ⟨by decide, hblank _ (by decide)⟩, ⟨by decide, hname⟩,
      ⟨by decide, hblank _ rfl⟩, by simp⟩
  obtain ⟨v, rfl, hv⟩ := occurrence_after_pieces (t := tail) (fun p hp => (hseparators p hp).1)
    (fun p hp => (hseparators p hp).2) (by simpa [bundleLine] using h)
  refine ⟨v, fun y => ?_, fun y => by simp [bundleLine]⟩
  obtain ⟨blanks, rest, hblanks, rfl | rfl⟩ := htail
  · exact absurd ⟨v, w, hv.symm⟩ (hblank _ hblanks)
  · rcases occurrence_append_cons (by decide) hv with ⟨b, hb, _⟩ | ⟨a, rfl, _⟩
    · exact absurd ⟨v, b, hb.symm⟩ (hblank _ hblanks)
    · exact ⟨blanks, a ++ y, hblanks, Or.inr (by simp)⟩

theorem survives_bundle {bundle : Text} (hclass : IsName className) (hbundle : IsPackage bundle) :
    Survives bundleOfLine? bundle (fun row => ¬ bundleDeclaration <:+: row ∧ Calm className row)
      fun row =>
        (∃ indent tail, allBlank indent = true ∧ IsRemark tail ∧
          row = bundleLine indent bundle tail) ∧
        Calm className row := by
  refine survives hclass kept_bundle rowwise_bundleOfLine?
    (fun _ => bundleOfLine?_eq_none_iff.mpr) ?_ ?_ ?_
  · -- the line of the class does not have as many spaces as the declaration
    intro _ hin
    have hcount := hin.sublist.count_le ' '
    have hdeclaration : bundleDeclaration.count ' ' = 4 := by decide
    have hwords : classDeclaration.count ' ' = 2 := by decide
    have hname : className.count ' ' = 0 := List.count_eq_zero.mpr (hclass.notMem (by decide))
    have hend : [' ', '{'].count ' ' = 1 := by decide
    rw [hdeclaration, classLine, List.count_append, List.count_append, hwords, hname,
      hend] at hcount
    omega
  · rintro u w ⟨indent, tail, hindent, htail, heq⟩ i _
    obtain ⟨v, hremark, hrow⟩ := exists_remark_of_import hindent hbundle htail heq.symm
    exact ⟨indent, v ++ (i ++ [';']), hindent, hremark _, by rw [List.append_assoc, hrow]⟩
  · rintro x ⟨indent, tail, hindent, htail, rfl⟩ hcalm
    rcases hcalm.replaceAll_cases hclass with ⟨_, heq⟩ | ⟨hhead, _⟩
    · rw [heq, bundleOfLine?_bundleLine hindent hbundle htail]
    · have hquote : '"' ∈ headLine className := by simp [← hhead, bundleLine]
      exact absurd hquote (notMem_headLine hclass (by decide) (by decide) (by decide))

/-! ## Adapted classes -/

/-- The first line of some kind has this text before its line end. It stands before every static
block, and it is no declaration of a message. -/
def Heads (kind : Text → Prop) (content text : Text) : Prop :=
  ∃ front lineEnd back, lines content = front ++ (text ++ lineEnd) :: back ∧ Unbroken text ∧
    LineEnd lineEnd ∧ (∀ line ∈ front, ¬ kind line ∧ ¬ staticBlockStart <:+: line) ∧
    ¬ staticBlockStart <:+: text ∧ text ++ lineEnd ∉ Declaration.declarationLines content

/-- The base class is named in the line of the class only. -/
def ExtendsOnce (content className : Text) : Prop :=
  ∀ line ∈ lines content, baseClassClause <:+: line →
    ∃ lineEnd, line = headLine className ++ lineEnd ∧ LineEnd lineEnd

theorem Heads.leads {kind shape : Text → Prop} {content text : Text} (h : Heads kind content text)
    (hkept : Kept kind) (hclass : IsName className) (hextends : ExtendsOnce content className)
    (hsolid : allBlank text = false) (hshape : shape text) :
    Leads (fun row => ¬ kind row ∧ Calm className row) (fun row => shape row ∧ Calm className row)
      (rows (removeLines (Declaration.declarationLines content) content)) := by
  obtain ⟨front, lineEnd, back, hlines, hbroken, hend, hfront, hblock, hstays⟩ := h
  have hhead : ∀ line ∈ lines content, ∀ row ∈ rows line, baseClassClause <:+: row →
      row = headLine className := by
    intro line hline row hrow hin
    obtain ⟨e, rfl, _⟩ := exists_of_mem_rows hline hrow
    obtain ⟨e', heq, he'⟩ := hextends _ hline (List.infix_append_of_infix_left hin)
    rw [heq, rows_line (unbroken_headLine hclass) he'] at hrow
    split at hrow
    · simp at hrow
    · exact List.mem_singleton.mp hrow
  refine Leads.removeLines hlines hend ⟨hbroken, hsolid⟩ hstays ?_ ⟨hshape, hblock, ?_⟩
  · intro line hline row hrow
    have hmem : line ∈ lines content := by
      rw [hlines]
      exact List.mem_append_left _ hline
    obtain ⟨e, rfl, _⟩ := exists_of_mem_rows hmem hrow
    obtain ⟨hkind, hstart⟩ := hfront _ hline
    exact ⟨fun hrow => hkind (hkept.append row e hrow),
      fun hin => hstart (List.infix_append_of_infix_left hin), hhead _ hmem row hrow⟩
  · refine hhead (text ++ lineEnd) (by simp [hlines]) text ?_
    rw [rows_line hbroken hend, hsolid]
    exact List.mem_singleton.mpr rfl

end NlsBundle.BundleEntry

namespace NlsBundle

open NlsBundle.Action

/-- A class that has been adapted is in its file. -/
theorem Conversion.holds_of_outcome_adaptClass {s s' : Session} {path content : Text}
    {removed : List Text} (hfile : s.Holds path content)
    (h : outcome (adaptClass path removed) s = (.ok true, s')) :
    ∃ adapted, MessageClass.adapt (MessageClass.removeLines removed content) = .ok adapted ∧
      s'.Holds path adapted := by
  rw [adaptClass] at h
  obtain ⟨_, s₁, hsay, h⟩ := of_outcome_bind_eq_ok h
  have hfile₁ : s₁.Holds path content := by
    have huntouched := untouched_say .info ("rewriting Message file ".toList ++ path) s
    rw [hsay] at huntouched
    exact (huntouched.holds_iff path content).mpr hfile
  obtain ⟨removedAny, s₂, hremove, h⟩ := of_outcome_bind_eq_ok h
  have hfile₂ : s₂.Holds path (MessageClass.removeLines removed content) := by
    rw [Conversion.removeLines, outcome_bind_of_ok (outcome_readText_of_holds hfile₁)] at hremove
    obtain ⟨_, s₃, hwrite, hpure⟩ := of_outcome_bind_eq_ok hremove
    cases hpure
    exact holds_of_outcome_writeText hfile.path_ne_nil hwrite
  rw [outcome_bind_of_ok (outcome_readText_of_holds hfile₂)] at h
  cases hadapt : MessageClass.adapt (MessageClass.removeLines removed content) with
  | error missing =>
    rw [hadapt] at h
    cases missing with
    | noStaticBlock =>
      obtain ⟨_, _, _, hpure⟩ := of_outcome_bind_eq_ok h
      cases hpure
    | noBaseClassImport => cases h
    | noClassEnd => cases h
  | ok adapted =>
    rw [hadapt] at h
    refine ⟨adapted, rfl, ?_⟩
    dsimp only at h
    split at h
    · obtain ⟨_, s₃, hwrite, hpure⟩ := of_outcome_bind_eq_ok h
      rw [outcome_pure, Prod.mk.injEq] at hpure
      rw [← hpure.2]
      exact holds_of_outcome_writeText hfile.path_ne_nil hwrite
    · rename_i hsame
      rw [outcome_pure, Prod.mk.injEq] at h
      exact absurd (Except.ok.inj h.1) hsame

namespace BundleEntry

open Text

theorem solid_of_mem {t : Text} {c : Char} (hmem : c ∈ t) (hc : isBlank c = false) :
    allBlank t = false := by
  cases ht : allBlank t with
  | false => rfl
  | true => exact absurd hmem (notMem_of_allBlank ht hc)

/-- **What a conversion run writes, a setup run reads back.** If a class declares its package, its
name and its bundle before its static block, on lines that are not removed, then its adapted form
has the same entry, whatever the line ends and wherever the imports and the look-up method are
put. -/
theorem readEntry_of_adaptClass {s s' : Session}
    {path content package className bundle indent tail : Text} (hfile : s.Holds path content)
    (hadapt : outcome (Conversion.adaptClass path (Declaration.declarationLines content)) s =
      (.ok true, s'))
    (hpackage : IsPackage package) (hword : ¬ packageWord <:+: package) (hclass : IsName className)
    (hbundle : IsPackage bundle) (hindent : allBlank indent = true) (htail : IsRemark tail)
    (hpackageLine : Heads (fun line => packageWord <+: trim line) content (packageLine package))
    (hclassLine : Heads (classDeclaration <:+: ·) content (headLine className))
    (hbundleLine : Heads (bundleDeclaration <:+: ·) content (bundleLine indent bundle tail))
    (hextends : ExtendsOnce content className) :
    outcome (Setup.readEntry path) s' = (.ok ⟨package ++ '.' :: className, bundle⟩, s') := by
  obtain ⟨adapted, hadapted, hfile'⟩ := Conversion.holds_of_outcome_adaptClass hfile hadapt
  have hpackageRow := (survives_package hclass hpackage hword).findSome?_adapt
    (hpackageLine.leads kept_package hclass hextends (solid_of_mem (c := ';')
      (by simp [packageLine]) (by decide)) rfl)
    hadapted
  have hclassRow := (survives_class hclass).findSome?_adapt
    (hclassLine.leads kept_class hclass hextends
      (solid_of_mem (c := '{') (by simp [headLine]) (by decide)) rfl) hadapted
  have hbundleRow := (survives_bundle hclass hbundle).findSome?_adapt
    (hbundleLine.leads kept_bundle hclass hextends
      (solid_of_mem (c := ';') (by simp [bundleLine]) (by decide))
      ⟨indent, tail, hindent, htail, rfl⟩) hadapted
  have hentry : ofClass adapted = .ok ⟨package ++ '.' :: className, bundle⟩ :=
    ofClass_eq_ok_iff.mpr ⟨package, bundle, className, hpackageRow, hbundleRow, hclassRow, rfl⟩
  rw [Setup.readEntry, outcome_bind_of_ok (outcome_readText_of_holds hfile'), hentry]
  rfl

/-- A message class with carriage returns, an indented declaration of its bundle and a comment after
it. -/
def extendingClass : Text :=
  packageLine ['p'] ++ ['\r', '\n'] ++ MessageClass.baseClassImport ++ [';', '\r', '\n'] ++
    headLine ['M'] ++ ['\r', '\n'] ++
    bundleLine [' '] ['b']
      [' ', '/', '/'] ++ "\r\npublic static String a;\nstatic \x7b\n\x7d\n\x7d".toList

/-- A line with a carriage return, found by its number. -/
theorem heads_of_getElem? {kind : Text → Prop} {content text : Text} (n : Nat)
    (h : (lines content)[n]? = some (text ++ ['\r', '\n']) ∧ Unbroken text ∧
      (∀ line ∈ (lines content).take n, ¬ kind line ∧ ¬ MessageClass.staticBlockStart <:+: line) ∧
        ¬ MessageClass.staticBlockStart <:+: text ∧
          text ++ ['\r', '\n'] ∉ Declaration.declarationLines content) :
    Heads kind content text := by
  obtain ⟨hline, hbroken, hfront, hblock, hstays⟩ := h
  obtain ⟨hlt, hget⟩ := List.getElem?_eq_some_iff.mp hline
  have hsplit :
      lines content =
        (lines content).take n ++ (text ++ ['\r', '\n']) :: (lines content).drop (n + 1) := by
    rw [← hget, ← List.drop_eq_getElem_cons hlt, List.take_append_drop]
  exact ⟨_, _, _, hsplit, hbroken, by decide, hfront, hblock, hstays⟩

theorem readEntry_of_adaptClass_small :
    (outcome (Setup.readEntry "/M".toList)
      (outcome (Conversion.adaptClass "/M".toList (Declaration.declarationLines extendingClass))
        (singleFile "/M".toList extendingClass)).2).1 = .ok ⟨['p', '.', 'M'], ['b']⟩ := by
  have hfile : (singleFile "/M".toList extendingClass).Holds "/M".toList extendingClass :=
    ⟨by decide, by decide +kernel⟩
  have hadapt :
      (outcome (Conversion.adaptClass "/M".toList (Declaration.declarationLines extendingClass))
      (singleFile "/M".toList extendingClass)).1 = .ok true := by decide +kernel
  have hpackage :
      Heads (fun line => packageWord <+: trim line) extendingClass (packageLine ['p']) :=
    heads_of_getElem? 0 (by decide +kernel)
  have hclass : Heads (classDeclaration <:+: ·) extendingClass (headLine ['M']) :=
    heads_of_getElem? 2 (by decide +kernel)
  have hbundle :
      Heads (bundleDeclaration <:+: ·) extendingClass (bundleLine [' '] ['b'] [' ', '/', '/']) :=
    heads_of_getElem? 3 (by decide +kernel)
  have hextends : ExtendsOnce extendingClass ['M'] := by
    have hline : ∀ line ∈ lines extendingClass, MessageClass.baseClassClause <:+: line →
        line = headLine ['M'] ++ ['\r', '\n'] := by decide +kernel
    intro line hmem hin
    exact ⟨_, hline line hmem hin, by decide⟩
  have hremark : IsRemark [' ', '/', '/'] := ⟨[' '], ['/'], by decide, Or.inr rfl⟩
  have hentry := readEntry_of_adaptClass hfile (outcome_eq_of_fst hadapt) (by decide)
    (by decide) (by decide) (by decide) (by decide) hremark hpackage hclass hbundle hextends
  exact congrArg Prod.fst hentry

end BundleEntry

end NlsBundle
