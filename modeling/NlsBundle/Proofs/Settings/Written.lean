import NlsBundle.Proofs.Settings.Reading

/-!
# A settings file is no message class

The entries that are read from message classes have no line ends, so the settings that are written
with them are two lines, neither of which declares a package. Proved here:

* `unbroken_of_ofClass`: what is read from a message class is part of one line;
* `mem_configurationLine`: a character of the line with the entries is visible, or it comes from an
  entry;
* `rows_render`: so the settings of such entries have two rows;
* `ofClass_render_ne_ok`: so no entry can be read from them.
-/

namespace NlsBundle

namespace Text

theorem Unbroken.append {a b : Text} (ha : Unbroken a) (hb : Unbroken b) : Unbroken (a ++ b) := by
  intro c hc
  rcases List.mem_append.mp hc with hc | hc
  · exact ha c hc
  · exact hb c hc

theorem Unbroken.of_forall_mem {a b : Text} (hb : Unbroken b) (h : ∀ c ∈ a, c ∈ b) : Unbroken a :=
  fun c hc => hb c (h c hc)

theorem mem_join {separator : Text} {pieces : List Text} {c : Char}
    (h : c ∈ join separator pieces) :
    c ∈ separator ∨ ∃ piece ∈ pieces, c ∈ piece := by
  induction pieces with
  | nil => exact absurd h List.not_mem_nil
  | cons piece pieces ih =>
    cases pieces with
    | nil => exact Or.inr ⟨piece, List.mem_cons_self, h⟩
    | cons next pieces =>
      rw [join_cons_cons, List.mem_append, List.mem_append] at h
      rcases h with (h | h) | h
      · exact Or.inr ⟨piece, List.mem_cons_self, h⟩
      · exact Or.inl h
      · exact (ih h).imp_right fun ⟨other, hother, hc⟩ =>
          ⟨other, List.mem_cons_of_mem piece hother, hc⟩

/-- The space and the characters of ASCII that have a shape. -/
def isVisible (c : Char) : Bool := ' ' ≤ c && c ≤ '~'

theorem isLineEnd_eq_false {c : Char} (h : isVisible c = true) : isLineEnd c = false := by
  by_contra hend
  simp only [isLineEnd, Bool.not_eq_false, Bool.or_eq_true, decide_eq_true_eq] at hend
  rcases hend with rfl | rfl
  · exact absurd h (by decide)
  · exact absurd h (by decide)

/-- What holds for each character of a literal: the literal is its list of characters, which can be
looked through. -/
theorem forall_mem_ofList {p : Char → Bool} {cs : List Char} (h : cs.all p = true) :
    ∀ c ∈ (String.ofList cs).toList, p c = true := by
  rw [String.toList_ofList]
  exact List.all_eq_true.mp h

theorem mem_of_mem_trim {t : Text} {c : Char} (h : c ∈ trim t) : c ∈ t := by
  rw [trim, List.mem_reverse] at h
  exact (List.dropWhile_sublist isBlank).subset
    (List.mem_reverse.mp ((List.dropWhile_sublist isBlank).subset h))

theorem unbroken_of_mem_rows {t row : Text} (h : row ∈ rows t) : Unbroken row :=
  not_separator_of_mem_splitWhere (List.mem_filter.mp h).1

end Text

namespace BundleEntry

open Text

/-! ## What is read from a class -/

theorem mem_of_packageOfLine? {line package : Text} (h : packageOfLine? line = some package) :
    ∀ c ∈ package, c ∈ line := by
  unfold packageOfLine? at h
  split at h
  · cases h
    intro c hc
    rcases mem_or_mem_of_mem_replaceAll isPiece_packageWord.ne_nil (mem_of_mem_trim hc) with hc | hc
    · exact List.mem_of_mem_filter hc
    · cases hc
  · cases h

theorem mem_of_bundleOfLine? {line bundle : Text} (h : bundleOfLine? line = some bundle) :
    ∀ c ∈ bundle, c ∈ line := by
  have hname : ∀ c, c ∈ trim (without (without (without
      (replaceAll line bundleDeclaration []) '"') '=') ';') → c ∈ line := by
    intro c hc
    have hc :=
      List.mem_of_mem_filter (List.mem_of_mem_filter (List.mem_of_mem_filter (mem_of_mem_trim hc)))
    rcases mem_or_mem_of_mem_replaceAll isPiece_bundleDeclaration.ne_nil hc with hc | hc
    · exact hc
    · cases hc
  unfold bundleOfLine? at h
  split at h
  · dsimp only at h
    split at h
    · cases h
      exact fun c hc => hname c ((List.takeWhile_sublist _).subset (mem_of_mem_trim hc))
    · cases h
      exact hname
  · cases h

theorem mem_of_classOfLine? {line className : Text} (h : classOfLine? line = some className) :
    ∀ c ∈ className, c ∈ line := by
  unfold classOfLine? at h
  split at h
  · cases h
    intro c hc
    rcases mem_or_mem_of_mem_replaceAll isPiece_classDeclaration.ne_nil
      (List.mem_of_mem_filter (mem_of_mem_trim hc)) with hc | hc
    · exact hc
    · cases hc
  · cases h

/-- The parts of the entry are parts of one line. -/
structure IsUnbroken (e : BundleEntry) : Prop where
  accessor : Unbroken e.accessor
  properties : Unbroken e.properties

theorem unbroken_of_findSome? {f : Text → Option Text}
    (hf : ∀ line v, f line = some v → ∀ c ∈ v, c ∈ line) {content v : Text}
    (h : (rows content).findSome? f = some v) : Unbroken v := by
  obtain ⟨row, hrow, hv⟩ := List.exists_of_findSome?_eq_some h
  exact (unbroken_of_mem_rows hrow).of_forall_mem (hf row v hv)

theorem unbroken_of_ofClass {content : Text} {e : BundleEntry} (h : ofClass content = .ok e) :
    e.IsUnbroken := by
  obtain ⟨package, bundle, className, hpackage, hbundle, hclass, rfl⟩ := ofClass_eq_ok_iff.mp h
  have hdot : Unbroken ['.'] := by decide
  exact ⟨(unbroken_of_findSome? (fun _ _ => mem_of_packageOfLine?) hpackage).append
      (hdot.append (unbroken_of_findSome? (fun _ _ => mem_of_classOfLine?) hclass)),
    unbroken_of_findSome? (fun _ _ => mem_of_bundleOfLine?) hbundle⟩

/-- A character of the markup is visible, or it comes from the entry. -/
theorem mem_render {e : BundleEntry} {c : Char} (h : c ∈ e.render) :
    isVisible c = true ∨ c ∈ e.accessor ∨ c ∈ e.properties := by
  unfold BundleEntry.render at h
  simp only [List.mem_append] at h
  rcases h with (((((h | h) | h) | h) | h) | h) | h
  · exact Or.inl (forall_mem_ofList rfl c h)
  · exact Or.inr (Or.inr h)
  · exact Or.inl (forall_mem_ofList rfl c h)
  · exact Or.inr (Or.inl h)
  all_goals exact Or.inl (forall_mem_ofList rfl c h)

end BundleEntry

namespace Settings

open Text BundleEntry

/-- The first line of a settings file, which holds the entries. -/
def configurationLine (entries : List BundleEntry) : Text :=
  "de.guhsoft.jinto.core.accessorConfiguration=".toList ++
    "<?xml version\\=\"1.0\" encoding\\=\"UTF-8\"?>\\n<root>\\n".toList ++
    Text.join "\\n".toList (entries.map BundleEntry.render) ++ "\\n</root>".toList

/-- The second line of a settings file. -/
def versionLine : Text := "eclipse.preferences.version=1".toList

theorem render_eq (entries : List BundleEntry) :
    render entries = configurationLine entries ++ '\n' :: (versionLine ++ ['\n']) := by
  have hend : "\\n</root>\neclipse.preferences.version=1\n".toList =
      "\\n</root>".toList ++ '\n' :: (versionLine ++ ['\n']) := by decide +kernel
  exact (congrArg (_ ++ ·) hend).trans (List.append_assoc _ _ _).symm

theorem mem_configurationLine {entries : List BundleEntry} {c : Char}
    (h : c ∈ configurationLine entries) :
    isVisible c = true ∨ ∃ e ∈ entries, c ∈ e.accessor ∨ c ∈ e.properties := by
  unfold configurationLine at h
  simp only [List.mem_append] at h
  rcases h with ((h | h) | h) | h
  · exact Or.inl (forall_mem_ofList rfl c h)
  · exact Or.inl (forall_mem_ofList rfl c h)
  · rcases mem_join h with h | ⟨piece, hpiece, h⟩
    · exact Or.inl (forall_mem_ofList rfl c h)
    · obtain ⟨e, he, rfl⟩ := List.mem_map.mp hpiece
      exact (mem_render h).imp_right fun h => ⟨e, he, h⟩
  · exact Or.inl (forall_mem_ofList rfl c h)

theorem unbroken_configurationLine {entries : List BundleEntry} (h : ∀ e ∈ entries, e.IsUnbroken) :
    Unbroken (configurationLine entries) := by
  intro c hc
  rcases mem_configurationLine hc with hvisible | ⟨e, he, haccessor | hproperties⟩
  · exact isLineEnd_eq_false hvisible
  · exact (h e he).accessor c haccessor
  · exact (h e he).properties c hproperties

theorem rows_render {entries : List BundleEntry} (h : ∀ e ∈ entries, e.IsUnbroken) :
    rows (render entries) = [configurationLine entries, versionLine] := by
  have hconfiguration : IsPiece (configurationLine entries) := ⟨unbroken_configurationLine h, rfl⟩
  have hversion : IsPiece versionLine := by decide +kernel
  have hnil : rows [] = [] := rfl
  rw [render_eq, rows_append_cons rfl, rows_append_cons rfl, rows_of_isPiece hconfiguration,
    rows_of_isPiece hversion, hnil]
  rfl

/-- A settings file is not taken for a message class. -/
theorem ofClass_render_ne_ok {entries : List BundleEntry} (h : ∀ e ∈ entries, e.IsUnbroken)
    (entry : BundleEntry) :
    ofClass (render entries) ≠ .ok entry := by
  intro hok
  obtain ⟨package, _, _, hpackage, _⟩ := ofClass_eq_ok_iff.mp hok
  have hconfiguration : packageOfLine? (configurationLine entries) = none := by
    rw [packageOfLine?_eq_none_iff, prefix_trim_iff packageWord_solid]
    rintro ⟨rest, hrest⟩
    cases hrest
  have hversion : packageOfLine? versionLine = none := by decide +kernel
  rw [rows_render h, List.findSome?_cons, hconfiguration, List.findSome?_cons, hversion] at hpackage
  cases hpackage

end Settings

end NlsBundle
