import NlsBundle.MessageClass
import NlsBundle.Proofs.Text.Row

/-!
# Edits of a message class, row by row

What is read from the first row of some kind survives the edits of a class, if the rows before it
are not of that kind and stay so. Proved here:

* `Leads.replace`, `Leads.insert`, `Leads.cut`: what happens to a list of rows that leads to a
  marked one;
* `Leads.replaceStaticBlock`, `Leads.addImports`, `Leads.addToLastClass`: what each edit does to the
  rows of a class;
* `read_cleanBlankLines`, `rows_cleanBlankLines`: the removal of blank lines does nothing to them;
* `Survives.findSome?_adapt`: the edits together.
-/

namespace NlsBundle.MessageClass

open Text

/-! ## The way to a marked row -/

/-- There is a marked row, and the rows before it may all be passed over. -/
inductive Leads (passed marked : Text → Prop) : List Text → Prop
  | here {row : Text} {rows : List Text} : marked row → Leads passed marked (row :: rows)
  | later {row : Text} {rows : List Text} : passed row → Leads passed marked rows →
      Leads passed marked (row :: rows)

section

variable {passed marked : Text → Prop} {front back new : List Text} {row : Text}

theorem Leads.append (h : Leads passed marked front) (back : List Text) :
    Leads passed marked (front ++ back) := by
  induction h with
  | here hrow => exact .here hrow
  | later hrow _ ih => exact .later hrow ih

theorem Leads.prepend (hfront : ∀ x ∈ front, passed x) (h : Leads passed marked back) :
    Leads passed marked (front ++ back) := by
  induction front with
  | nil => exact h
  | cons x front ih =>
    exact .later (hfront x List.mem_cons_self) (ih fun y hy => hfront y (List.mem_cons_of_mem x hy))

/-- New rows in place of one row: they may be passed over if it may be, and lead to a marked one if
it is marked. -/
theorem Leads.replace (h : Leads passed marked (front ++ row :: back))
    (hpassed : passed row → ∀ x ∈ new, passed x) (hmarked : marked row → Leads passed marked new) :
    Leads passed marked (front ++ (new ++ back)) := by
  induction front with
  | nil =>
    show Leads passed marked (new ++ back)
    cases h with
    | here hrow => exact (hmarked hrow).append back
    | later hrow hback => exact Leads.prepend (hpassed hrow) hback
  | cons x front ih =>
    cases h with
    | here hx => exact .here hx
    | later hx hrest => exact .later hx (ih hrest)

theorem Leads.insert (h : Leads passed marked (front ++ back)) (hnew : ∀ x ∈ new, passed x) :
    Leads passed marked (front ++ (new ++ back)) := by
  induction front with
  | nil =>
    show Leads passed marked (new ++ back)
    exact Leads.prepend hnew h
  | cons x front ih =>
    cases h with
    | here hx => exact .here hx
    | later hx hrest => exact .later hx (ih hrest)

/-- The marked row stands before every row that is neither marked nor passed over. -/
theorem Leads.cut (h : Leads passed marked (front ++ row :: back)) (hpassed : ¬ passed row)
    (hmarked : ¬ marked row) :
    Leads passed marked front := by
  induction front with
  | nil =>
    cases h with
    | here hrow => exact absurd hrow hmarked
    | later hrow _ => exact absurd hrow hpassed
  | cons x front ih =>
    cases h with
    | here hx => exact .here hx
    | later hx hrest => exact .later hx (ih hrest)

/-- What is found in the marked row is found first. -/
theorem Leads.findSome?_map {α : Type} {f : Text → Option α} {v : α} {g : Text → Text}
    {rows : List Text} (h : Leads passed marked rows) (hblank : ∀ x, allBlank x = true → f x = none)
    (hpassed : ∀ x, passed x → f (g x) = none) (hmarked : ∀ x, marked x → f (g x) = some v) :
    ((rows.map g).filter fun x => !allBlank x).findSome? f = some v := by
  induction h with
  | @here row rows hrow =>
    have hsolid : allBlank (g row) = false := by
      cases hg : allBlank (g row) with
      | false => rfl
      | true => simpa [hblank _ hg] using hmarked row hrow
    rw [List.map_cons, List.filter_cons_of_pos (by simp [hsolid]), List.findSome?_cons,
      hmarked row hrow]
  | @later row rows hrow _ ih =>
    cases hg : allBlank (g row) with
    | true => rw [List.map_cons, List.filter_cons_of_neg (by simp [hg]), ih]
    | false =>
      rw [List.map_cons, List.filter_cons_of_pos (by simp [hg]), List.findSome?_cons,
        hpassed row hrow, ih]

/-! ## The edits -/

theorem isPiece_staticBlockStart : IsPiece staticBlockStart := by decide

theorem isPiece_baseClassImport : IsPiece baseClassImport := by decide

theorem isPiece_baseClassClause : IsPiece baseClassClause := by decide

/-- The block is replaced behind the marked row. -/
theorem Leads.replaceStaticBlock {t t' : Text} (h : Leads passed marked (rows t))
    (hedit : replaceStaticBlock? t = some t')
    (hblock : ∀ x, passed x ∨ marked x → ¬ staticBlockStart <:+: x) :
    Leads passed marked (rows t') := by
  simp only [replaceStaticBlock?, Option.bind_eq_bind, Option.bind_eq_some_iff,
    Option.some.injEq] at hedit
  obtain ⟨⟨before, inside⟩, hcut, ⟨_, rest⟩, _, rfl⟩ := hedit
  obtain ⟨front, u, w, back, hrows, _, _, hbefore, _⟩ :=
    exists_row_around isPiece_staticBlockStart before inside
  have hstart : staticBlockStart <:+: u ++ staticBlockStart ++ w := ⟨u, w, rfl⟩
  rw [eq_of_cut? hcut, hrows] at h
  have hfront := h.cut (fun hp => hblock _ (Or.inl hp) hstart) fun hm => hblock _ (Or.inr hm) hstart
  rw [List.append_assoc, hbefore]
  exact hfront.append _

/-- The characters of the new imports: none has a line end, each begins like the import that it is
put before, and some characters are missing. -/
theorem resolverImports_chars :
    ∀ i ∈ resolverImports, Unbroken i ∧ i.take 2 = ['i', 'm'] ∧ '{' ∉ i ∧ 'N' ∉ i ∧ 'b' ∉ i := by
  decide +kernel

/-- The rows of the new imports and of the import that they are put before. -/
def importRows (u w : Text) : List Text :=
  (resolverImports.modifyHead (u ++ ·)).map (· ++ [';']) ++ [baseClassImport ++ w]

theorem importRows_eq_cons (u w : Text) :
    ∃ i ∈ resolverImports, ∃ new, importRows u w = (u ++ i ++ [';']) :: new :=
  ⟨_, List.mem_cons_self, _, rfl⟩

theorem join_append_separator (separator : Text) {pieces : List Text} (h : pieces ≠ []) :
    join separator pieces ++ separator = pieces.flatMap (· ++ separator) := by
  induction pieces with
  | nil => exact absurd rfl h
  | cons piece pieces ih =>
    cases pieces with
    | nil => simp [join]
    | cons next pieces =>
      rw [join_cons_cons, List.append_assoc, ih (by simp)]
      rfl

theorem rows_flatMap_imports {imports : List Text} (h : ∀ i ∈ imports, Unbroken i) (x : Text) :
    rows (imports.flatMap (· ++ [';', '\n']) ++ x) = imports.map (· ++ [';']) ++ rows x := by
  induction imports with
  | nil => rfl
  | cons i imports ih =>
    have hsplit : (i :: imports).flatMap (· ++ [';', '\n']) ++ x =
        (i ++ [';']) ++ '\n' :: (imports.flatMap (· ++ [';', '\n']) ++ x) := by simp
    have hi : IsPiece (i ++ [';']) := by
      have hsemicolon : IsPiece [';'] := by decide
      simpa using hsemicolon.append (h i List.mem_cons_self) (w := []) (by simp [Unbroken])
    rw [hsplit, rows_append_cons rfl, rows_of_isPiece hi,
      ih fun j hj => h j (List.mem_cons_of_mem i hj)]
    rfl

theorem mem_or_of_mem_modifyHead {f : Text → Text} {pieces : List Text} {x : Text}
    (h : x ∈ pieces.modifyHead f) :
    x ∈ pieces ∨ ∃ piece ∈ pieces, x = f piece := by
  cases pieces with
  | nil => exact Or.inl h
  | cons piece pieces =>
    rcases List.mem_cons.mp h with rfl | h
    · exact Or.inr ⟨piece, List.mem_cons_self, rfl⟩
    · exact Or.inl (List.mem_cons_of_mem piece h)

theorem append_flatMap {pieces : List Text} (h : pieces ≠ []) (u y : Text) :
    u ++ pieces.flatMap (· ++ y) = (pieces.modifyHead (u ++ ·)).flatMap (· ++ y) := by
  cases pieces with
  | nil => exact absurd rfl h
  | cons piece pieces => simp

theorem rows_importBlock {u : Text} (hu : Unbroken u) (x : Text) :
    rows (u ++ importBlock ++ x) =
      (resolverImports.modifyHead (u ++ ·)).map (· ++ [';']) ++ rows x := by
  have hne : resolverImports ≠ [] := List.cons_ne_nil _ _
  have hblock : importBlock = resolverImports.flatMap (· ++ [';', '\n']) ++ ['\n'] := by
    have hend : ";\n\n".toList = [';', '\n'] ++ ['\n'] := by decide
    have hseparator : ";\n".toList = [';', '\n'] := by decide
    rw [importBlock, hend, hseparator, ← List.append_assoc, join_append_separator _ hne]
  have hbroken : ∀ i ∈ resolverImports, Unbroken i := fun i hi => (resolverImports_chars i hi).1
  have hfirst : ∀ i ∈ resolverImports.modifyHead (u ++ ·), Unbroken i := by
    intro i hi
    rcases mem_or_of_mem_modifyHead hi with hi | ⟨j, hj, rfl⟩
    · exact hbroken i hi
    · intro c hc
      rcases List.mem_append.mp hc with hc | hc
      · exact hu c hc
      · exact hbroken j hj c hc
  rw [hblock, ← List.append_assoc, append_flatMap hne, List.append_assoc,
    rows_flatMap_imports hfirst, List.singleton_append, rows_cons rfl]

theorem Leads.addImports {t t' : Text} (h : Leads passed marked (rows t))
    (hedit : addImports? t baseClassImport = some t')
    (hpassed : ∀ u w, passed (u ++ baseClassImport ++ w) → ∀ row ∈ importRows u w, passed row)
    (hmarked : ∀ u w, marked (u ++ baseClassImport ++ w) → Leads passed marked (importRows u w)) :
    Leads passed marked (rows t') := by
  simp only [addImports?, Option.map_eq_some_iff] at hedit
  obtain ⟨⟨before, rest⟩, hcut, rfl⟩ := hedit
  obtain ⟨front, u, w, back, hrows, hu, hw, hbefore, hrest⟩ :=
    exists_row_around isPiece_baseClassImport before rest
  have hrows' : rows (before ++ importBlock ++ baseClassImport ++ rest) =
      front ++ (importRows u w ++ back) := by
    have hlast : rows (baseClassImport ++ w) = [baseClassImport ++ w] :=
      rows_of_isPiece (isPiece_baseClassImport.append (u := []) (by simp [Unbroken]) hw)
    rw [List.append_assoc, List.append_assoc, hbefore, ← List.append_assoc, ← List.append_assoc,
      hrest, List.append_assoc, rows_importBlock hu, hlast]
    rfl
  rw [eq_of_cut? hcut, hrows] at h
  rw [hrows']
  exact h.replace (hpassed u w) (hmarked u w)

/-- The look-up method makes rows of its own. -/
theorem Leads.addToLastClass {t t' : Text} (h : Leads passed marked (rows t))
    (hedit : addToLastClass? t lookupMethod = some t')
    (hpassed : ∀ row ∈ rows lookupMethod, passed row) :
    Leads passed marked (rows t') := by
  simp only [addToLastClass?, Option.map_eq_some_iff] at hedit
  obtain ⟨⟨before, rest⟩, hcut, rfl⟩ := hedit
  have hend : classEnd = '\n' :: ['}'] := by decide
  obtain ⟨body, hbody⟩ : ∃ body, lookupMethod = '\n' :: body := ⟨lookupMethod.tail, by decide⟩
  have hrows : rows t = rows before ++ rows ('}' :: rest) := by
    rw [eq_of_cutLast? hcut, hend, List.append_assoc, List.cons_append, rows_append_cons rfl,
      List.singleton_append]
  have hrows' : rows (before ++ lookupMethod ++ classEnd ++ rest) =
      rows before ++ (rows lookupMethod ++ rows ('}' :: rest)) := by
    have hmethod : rows lookupMethod = rows body := by rw [hbody, rows_cons rfl]
    rw [hmethod, hbody, hend, List.append_assoc, List.cons_append, rows_append_cons rfl,
      List.singleton_append, rows_append_cons rfl, List.append_assoc]
  rw [hrows']
  rw [hrows] at h
  exact h.insert hpassed

/-! ## Blank lines -/

section

variable {α : Type} {f : Text → List α}

theorem flatMap_dropSuperfluous (hblank : ∀ line, allBlank line = true → f line = [])
    (blankBefore2 blankBefore1 : Bool) (pieces : List Text) :
    (dropSuperfluous blankBefore2 blankBefore1 pieces).flatMap f = pieces.flatMap f := by
  fun_induction dropSuperfluous blankBefore2 blankBefore1 pieces with
  | case1 => rfl
  | case2 _ _ line h =>
    have hline : allBlank line = true := (Bool.and_eq_true_iff.mp h).2
    simp [hblank line hline]
  | case3 => rfl
  | case4 _ _ line next rest kept h ih =>
    have hline : allBlank line = true := (Bool.and_eq_true_iff.mp h).2
    rw [List.flatMap_cons, hblank line hline, List.nil_append]
    exact ih
  | case5 _ _ line next rest kept h ih =>
    rw [List.flatMap_cons, List.flatMap_cons]
    exact congrArg (f line ++ ·) ih

/-- What is read from the lines of a text one after the other, and from blank lines not at all, is
the same in a clean text. -/
theorem read_cleanBlankLines (hfeed : ∀ a b, f (a ++ '\n' :: b) = f a ++ f b)
    (hblank : ∀ line, allBlank line = true → f line = []) (t : Text) :
    f (cleanBlankLines t) = f t := by
  have hjoin : ∀ pieces, f (join ['\n'] pieces) = pieces.flatMap f := by
    intro pieces
    induction pieces with
    | nil => exact hblank [] rfl
    | cons piece pieces ih =>
      cases pieces with
      | nil => simp [join]
      | cons next pieces =>
        rw [join_cons_cons, List.append_assoc, List.singleton_append, hfeed, ih]
        rfl
  rw [cleanBlankLines, hjoin, flatMap_dropSuperfluous hblank, ← hjoin, join_splitWhere]

end

theorem rows_cleanBlankLines (t : Text) : rows (cleanBlankLines t) = rows t :=
  read_cleanBlankLines (rows_append_cons rfl) (fun _ => rows_eq_nil) t

/-! ## All edits -/

/-- The lines before a line that stays are passed over, whether they stay or not. -/
theorem Leads.removeLines {removed front back : List Text} {t text lineEnd : Text}
    (hlines : lines t = front ++ (text ++ lineEnd) :: back) (hend : LineEnd lineEnd)
    (htext : IsPiece text) (hkept : text ++ lineEnd ∉ removed)
    (hpassed : ∀ line ∈ front, ∀ row ∈ rows line, passed row) (hmarked : marked text) :
    Leads passed marked (rows (removeLines removed t)) := by
  have hpairwise :
      (keptLines removed t).Pairwise fun line _ => EndsLine line := (pairwise_lines t).filter _
  have hsplit : keptLines removed t =
      front.filter (· ∉ removed) ++ (text ++ lineEnd) :: back.filter (· ∉ removed) := by
    rw [keptLines, hlines, List.filter_append, List.filter_cons_of_pos (by simpa using hkept)]
  have hrow : rows (text ++ lineEnd) = [text] := by
    rw [rows_line htext.unbroken hend, htext.solid]
    rfl
  rw [MessageClass.removeLines, rows_flatten hpairwise, hsplit, List.flatMap_append,
    List.flatMap_cons, hrow]
  refine Leads.prepend (fun row hrow => ?_) (.here hmarked)
  obtain ⟨line, hline, hrow⟩ := List.mem_flatMap.mp hrow
  exact hpassed line (List.mem_filter.mp hline).1 row hrow

/-- What is read from a marked row survives the edits, if they keep marked what is marked and make
nothing that may not be passed over. -/
structure Survives {α : Type} (f : Text → Option α) (v : α)
    (passed marked : Text → Prop) : Prop where
  no_block : ∀ x, passed x ∨ marked x → ¬ staticBlockStart <:+: x
  import_passed : ∀ u w, passed (u ++ baseClassImport ++ w) → ∀ row ∈ importRows u w, passed row
  import_marked : ∀ u w, marked (u ++ baseClassImport ++ w) → Leads passed marked (importRows u w)
  method_passed : ∀ row ∈ rows lookupMethod, passed row
  read_blank : ∀ x, allBlank x = true → f x = none
  read_passed : ∀ x, passed x → f (replaceAll x baseClassClause []) = none
  read_marked : ∀ x, marked x → f (replaceAll x baseClassClause []) = some v

/-- The rows of an adapted class lead to a marked row as the rows of the class do. -/
theorem Survives.findSome?_adapt {α : Type} {f : Text → Option α} {v : α} {t t' : Text}
    (hs : Survives f v passed marked) (h : Leads passed marked (rows t))
    (hadapt : adapt t = .ok t') :
    (rows t').findSome? f = some v := by
  unfold adapt at hadapt
  cases hresolved : replaceStaticBlock? t with
  | none => simp [hresolved] at hadapt
  | some resolved =>
    cases himported : addImports? resolved baseClassImport with
    | none => simp [hresolved, himported] at hadapt
    | some imported =>
      cases hcomplete : addToLastClass? imported lookupMethod with
      | none => simp [hresolved, himported, hcomplete] at hadapt
      | some complete =>
        simp only [hresolved, himported, hcomplete, Except.ok.injEq] at hadapt
        have hrows : Leads passed marked (rows complete) :=
          ((h.replaceStaticBlock hresolved hs.no_block).addImports himported hs.import_passed
            hs.import_marked).addToLastClass
            hcomplete hs.method_passed
        rw [← hadapt, rows_replaceAll isPiece_baseClassClause (by simp [Unbroken]),
          rows_cleanBlankLines]
        exact hrows.findSome?_map hs.read_blank hs.read_passed hs.read_marked

end

end NlsBundle.MessageClass
