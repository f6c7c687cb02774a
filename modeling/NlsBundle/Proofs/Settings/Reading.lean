import NlsBundle.Conversion
import NlsBundle.Proofs.Name
import NlsBundle.Proofs.Session.Effect
import NlsBundle.Proofs.Text.Row
import NlsBundle.Proofs.Text.Trim
import NlsBundle.Setup

/-!
# Reading a message class

A setup run takes package, bundle and class from the first line that has each of them. Proved here:

* `rowwise_packageOfLine?`, `rowwise_bundleOfLine?`, `rowwise_classOfLine?`: line ends and blank
  lines make no difference to what is found;
* `ofClass_eq_ok_iff`: the entry is put together from what is found in rows;
* `packageOfLine?_packageLine`, `classOfLine?_classLine`, `bundleOfLine?_bundleLine`: what is read
  from a line that declares a package, a class or a bundle;
* `accessor_eq_package_iff`: conversion runs and setup runs read the same package exactly if its
  name does not have the word `package` in it, which a setup run removes wherever it stands.
-/

namespace NlsBundle

namespace Text

theorem without_append (a b : Text) (c : Char) : without (a ++ b) c = without a c ++ without b c :=
  List.filter_append a b

theorem without_of_notMem {t : Text} {c : Char} (h : c ∉ t) : without t c = t := by
  rw [without, List.filter_eq_self]
  intro d hd
  simpa using fun heq : d = c => h (heq ▸ hd)

theorem without_append_lineEnd {c d : Char} (hc : isLineEnd c = true) (hd : isLineEnd d = false)
    (t : Text) :
    without (t ++ [c]) d = without t d ++ [c] := by
  have hne : d ≠ c := by
    rintro rfl
    rw [hc] at hd
    cases hd
  rw [without_append, without_of_notMem (t := [c]) (by simpa using hne)]

theorem IsPiece.replaceAll_append_lineEnd {piece : Text} (h : IsPiece piece) {c : Char}
    (hc : isLineEnd c = true) (t : Text) :
    replaceAll (t ++ [c]) piece [] = replaceAll t piece [] ++ [c] := by
  rw [replaceAll_append_cons h.ne_nil (h.unbroken.notMem hc)]
  simp [replaceAll, h.ne_nil, replaceFrom]

theorem IsPiece.contains_append_lineEnd {piece : Text} (h : IsPiece piece) {c : Char}
    (hc : isLineEnd c = true) (t : Text) : contains (t ++ [c]) piece = contains t piece := by
  rw [Bool.eq_iff_iff, contains_iff, contains_iff, infix_append_cons_iff (h.unbroken.notMem hc)]
  simp [h.ne_nil]

end Text

namespace BundleEntry

open Text

/-! ## Lines and rows -/

theorem packageOfLine?_eq_none_iff {line : Text} :
    packageOfLine? line = none ↔ ¬ packageWord <+: trim line := by
  rw [packageOfLine?, ← isSome_after?_iff]
  split <;> simp_all

theorem bundleOfLine?_eq_none_iff {line : Text} :
    bundleOfLine? line = none ↔ ¬ bundleDeclaration <:+: line := by
  rw [bundleOfLine?, ← contains_iff]
  by_cases h : contains line bundleDeclaration = true
  · rw [if_pos h]
    dsimp only
    split <;> simp [h]
  · simp [h]

theorem classOfLine?_eq_none_iff {line : Text} :
    classOfLine? line = none ↔ ¬ classDeclaration <:+: line := by
  rw [classOfLine?, ← contains_iff]
  split <;> simp_all

theorem isPiece_packageWord : IsPiece packageWord := by decide

theorem isPiece_bundleDeclaration : IsPiece bundleDeclaration := by decide

theorem isPiece_classDeclaration : IsPiece classDeclaration := by decide

theorem rowwise_packageOfLine? : Rowwise packageOfLine? where
  of_blank t ht := by
    rw [packageOfLine?_eq_none_iff, trim_eq_nil ht, List.prefix_nil]
    exact isPiece_packageWord.ne_nil
  of_lineEnd t c hc := by
    have hblank := isBlank_of_isLineEnd hc
    rw [packageOfLine?, packageOfLine?, trim_append_singleton hblank, without_append_lineEnd hc rfl,
      isPiece_packageWord.replaceAll_append_lineEnd hc, trim_append_singleton hblank]

theorem rowwise_bundleOfLine? : Rowwise bundleOfLine? where
  of_blank t ht := bundleOfLine?_eq_none_iff.mpr (isPiece_bundleDeclaration.not_infix ht)
  of_lineEnd t c hc := by
    rw [bundleOfLine?, bundleOfLine?, isPiece_bundleDeclaration.contains_append_lineEnd hc,
      isPiece_bundleDeclaration.replaceAll_append_lineEnd hc]
    dsimp only
    rw [without_append_lineEnd hc rfl, without_append_lineEnd hc rfl, without_append_lineEnd hc rfl,
      trim_append_singleton (isBlank_of_isLineEnd hc)]

theorem rowwise_classOfLine? : Rowwise classOfLine? where
  of_blank t ht := classOfLine?_eq_none_iff.mpr (isPiece_classDeclaration.not_infix ht)
  of_lineEnd t c hc := by
    rw [classOfLine?, classOfLine?, isPiece_classDeclaration.contains_append_lineEnd hc,
      isPiece_classDeclaration.replaceAll_append_lineEnd hc, without_append_lineEnd hc rfl,
      trim_append_singleton (isBlank_of_isLineEnd hc)]

/-- The entry of a class is put together from what is found in its rows. -/
theorem ofClass_eq_ok_iff {content : Text} {entry : BundleEntry} :
    ofClass content = .ok entry ↔ ∃ package bundle className,
      (rows content).findSome? packageOfLine? = some package ∧
        (rows content).findSome? bundleOfLine? = some bundle ∧
      (rows content).findSome? classOfLine? = some className ∧
        entry = ⟨package ++ '.' :: className, bundle⟩ := by
  unfold ofClass
  dsimp only
  rw [findSome?_lines_unifyLineEnds rowwise_packageOfLine?,
    findSome?_lines_unifyLineEnds rowwise_bundleOfLine?,
    findSome?_lines_unifyLineEnds rowwise_classOfLine?]
  constructor
  · intro h
    split at h
    · cases h
    · cases h
    · cases h
    · rename_i package bundle className hpackage hbundle hclass
      exact ⟨package, bundle, className, hpackage, hbundle, hclass, (Except.ok.inj h).symm⟩
  · rintro ⟨package, bundle, className, hpackage, hbundle, hclass, rfl⟩
    rw [hpackage, hbundle, hclass]

/-! ## Declarations -/

/-- A line that declares a package. -/
def packageLine (package : Text) : Text := packageWord ++ ' ' :: (package ++ [';'])

theorem packageWord_solid : ∀ c ∈ packageWord, isBlank c = false := by
  have hany : packageWord.any isBlank = false := by decide
  simpa using hany

/-- A text that begins like a package declaration does so whatever follows. -/
theorem packageWord_prefix_append {x : Text} (h : packageWord <+: trim x) (y : Text) :
    packageWord <+: trim (x ++ y) :=
  prefix_trim_append packageWord_solid isPiece_packageWord.ne_nil h y

theorem packageOfLine?_packageLine {package : Text} (h : IsPackage package) :
    packageOfLine? (packageLine package) = some (replaceAll package packageWord []) := by
  have hfront : packageWord <+: trim (packageLine package) :=
    packageWord_prefix_append (x := packageWord) (by decide) _
  have hwithout : without (packageLine package) ';' = packageWord ++ ' ' :: package := by
    have hsemicolon : ';' ∉ packageWord ++ ' ' :: package := by
      have hw : ';' ∉ packageWord := by decide
      simp [hw, h.notMem (c := ';') (by decide) (by decide)]
    have hsplit :
        packageLine package = (packageWord ++ ' ' :: package) ++ [';'] := by simp [packageLine]
    rw [hsplit, without_append, without_of_notMem hsemicolon]
    simp [without]
  have hword : replaceAll packageWord packageWord [] = [] := by decide
  have hsolid : ∀ c ∈ replaceAll package packageWord [], isBlank c = false := by
    intro c hc
    rcases mem_or_mem_of_mem_replaceAll isPiece_packageWord.ne_nil hc with hc | hc
    · exact h.isBlank_eq_false c hc
    · simp at hc
  have htrim := trim_surrounded (a := [' ']) (b := []) (by decide) hsolid (by decide)
  rw [packageOfLine?, if_pos (isSome_after?_iff.mpr hfront), hwithout,
    replaceAll_append_cons isPiece_packageWord.ne_nil (by decide), hword, List.nil_append]
  simpa using htrim

/-- A line that declares a class. -/
def classLine (className : Text) : Text := classDeclaration ++ (className ++ [' ', '{'])

theorem classOfLine?_classLine {className : Text} (h : IsName className) :
    classOfLine? (classLine className) = some className := by
  have hbrace : '{' ∉ className ++ [' '] := by simp [h.notMem (c := '{') (by decide)]
  have hrest : ¬ classDeclaration <:+: className ++ [' ', '{'] := by
    intro hin
    have hcount := hin.sublist.count_le ' '
    have hname : className.count ' ' = 0 := List.count_eq_zero.mpr (h.notMem (by decide))
    have hword : classDeclaration.count ' ' = 2 := by decide
    have hend : [' ', '{'].count ' ' = 1 := by decide
    rw [hword, List.count_append, hname, hend] at hcount
    omega
  have hwithout : without (className ++ [' ', '{']) '{' = [] ++ className ++ [' '] := by
    have hsplit : className ++ [' ', '{'] = (className ++ [' ']) ++ ['{'] := by simp
    rw [hsplit, without_append, without_of_notMem hbrace]
    simp [without]
  have hin : classDeclaration <:+: classLine className := ⟨[], className ++ [' ', '{'], rfl⟩
  rw [classOfLine?, if_pos (contains_iff.mpr hin), classLine,
    replaceAll_piece_append isPiece_classDeclaration.ne_nil,
    replaceAll_of_not_infix isPiece_classDeclaration.ne_nil hrest, List.nil_append, hwithout,
    trim_surrounded rfl h.isBlank_eq_false (by decide)]

/-- Blanks, and then nothing or what begins with a slash, such as a comment. -/
def IsRemark (t : Text) : Prop :=
  ∃ blanks rest, allBlank blanks = true ∧ (t = blanks ∨ t = blanks ++ '/' :: rest)

/-- A line that declares a bundle, with the blanks before it and what follows it. -/
def bundleLine (indent bundle tail : Text) : Text :=
  indent ++ bundleDeclaration ++ [' ', '=', ' ', '"'] ++ bundle ++ ['"', ';'] ++ tail

theorem notMem_of_allBlank {t : Text} (h : allBlank t = true) {c : Char} (hc : isBlank c = false) :
    c ∉ t := by
  intro hm
  rw [List.all_eq_true.mp h c hm] at hc
  cases hc

theorem replaceAll_bundleDeclaration {t : Text} (h : IsRemark t) :
    IsRemark (replaceAll t bundleDeclaration []) := by
  obtain ⟨blanks, rest, hblanks, ht⟩ := h
  have hkept : replaceAll blanks bundleDeclaration [] = blanks :=
    replaceAll_of_not_infix isPiece_bundleDeclaration.ne_nil
      (isPiece_bundleDeclaration.not_infix hblanks)
  rcases ht with rfl | rfl
  · exact ⟨t, rest, hblanks, Or.inl hkept⟩
  · refine ⟨blanks, replaceAll rest bundleDeclaration [], hblanks, Or.inr ?_⟩
    rw [replaceAll_append_cons isPiece_bundleDeclaration.ne_nil (by decide), hkept]

theorem IsRemark.without {t : Text} (h : IsRemark t) {c : Char} (hc : isBlank c = false)
    (hslash : c ≠ '/') :
    IsRemark (without t c) := by
  obtain ⟨blanks, rest, hblanks, ht⟩ := h
  have hkept : Text.without blanks c = blanks := without_of_notMem (notMem_of_allBlank hblanks hc)
  rcases ht with rfl | rfl
  · exact ⟨t, rest, hblanks, Or.inl hkept⟩
  · refine ⟨blanks, Text.without rest c, hblanks, Or.inr ?_⟩
    rw [without_append, hkept]
    simp [Text.without, hslash.symm]

/-- What is left of a line that declares a bundle without the words of the declaration. -/
theorem replaceAll_bundleLine {indent bundle tail : Text} (hindent : allBlank indent = true)
    (hbundle : IsPackage bundle) :
    replaceAll (bundleLine indent bundle tail) bundleDeclaration [] =
      indent ++ [' ', '=', ' ', '"'] ++ bundle ++ ['"', ';'] ++
        replaceAll tail bundleDeclaration [] := by
  have hsplit : bundleLine indent bundle tail =
      (indent ++ (bundleDeclaration ++ [' '])) ++
        '=' :: ([' '] ++ '"' :: (bundle ++ '"' :: ([] ++ ';' :: tail))) := by
    simp [bundleLine]
  have hfree : FrontFree (bundleDeclaration <+: ·) indent (bundleDeclaration ++ [' ']) := by
    -- the declaration does not begin with a blank
    intro a b hab hb hfront
    obtain ⟨c, b, rfl⟩ := List.exists_cons_of_ne_nil hb
    have hc : isBlank c = true := List.all_eq_true.mp hindent c (by simp [hab])
    have hp : c = 'p' := by
      obtain ⟨z, hz⟩ := hfront
      exact (List.cons.inj (show 'p' :: _ = c :: _ from hz)).1.symm
    rw [hp] at hc
    revert hc
    decide
  have hp := isPiece_bundleDeclaration.ne_nil
  have hblank : ∀ t, allBlank t = true → replaceAll t bundleDeclaration [] = t := fun t ht =>
    replaceAll_of_not_infix hp (isPiece_bundleDeclaration.not_infix ht)
  have hname : replaceAll bundle bundleDeclaration [] = bundle := by
    refine replaceAll_of_not_infix hp fun hin => ?_
    exact hbundle.notMem (c := ' ') (by decide) (by decide) (hin.subset (by decide))
  rw [hsplit, replaceAll_append_cons hp (by decide), replaceAll_append_cons hp (by decide),
    replaceAll_append_cons hp (by decide), replaceAll_append_cons hp (by decide),
    replaceAll_append hp hfree, replaceAll_piece_append hp, hblank [' '] (by decide), hname,
    hblank [] rfl]
  simp

/-- A bundle name among blanks and before a remark is found. -/
theorem trim_before_remark {blanks bundle remark : Text} (hblanks : allBlank blanks = true)
    (hbundle : IsPackage bundle) (hremark : IsRemark remark) :
    (if '/' ∈ trim (blanks ++ bundle ++ remark) then
      some (trim ((trim (blanks ++ bundle ++ remark)).takeWhile (· ≠ '/')))
      else some (trim (blanks ++ bundle ++ remark))) = some bundle := by
  have hsolid := hbundle.isBlank_eq_false
  have hslash : '/' ∉ bundle := hbundle.notMem (by decide) (by decide)
  obtain ⟨gap, rest, hgap, rfl | rfl⟩ := hremark
  · rw [trim_surrounded hblanks hsolid hgap, if_neg hslash]
  · -- the name and the blanks after it are what stands before the slash
    have hfull :
        blanks ++ bundle ++ (gap ++ '/' :: rest) =
          (blanks ++ bundle ++ gap) ++ '/' :: rest := by simp
    have hdrop : (blanks ++ bundle ++ gap).dropWhile isBlank = bundle ++ gap := by
      rw [List.append_assoc, List.dropWhile_append_of_pos (List.all_eq_true.mp hblanks)]
      obtain ⟨c, name, rfl⟩ := List.exists_cons_of_ne_nil hbundle.ne_nil
      simp [hsolid c List.mem_cons_self]
    have hfront : ∀ c ∈ bundle ++ gap, decide (c ≠ '/') = true := by
      intro c hc
      rw [decide_eq_true_eq]
      rintro rfl
      rcases List.mem_append.mp hc with hc | hc
      · exact hslash hc
      · exact notMem_of_allBlank hgap (by decide) hc
    have htake : ((bundle ++ gap) ++ '/' :: rest.rdropWhile isBlank).takeWhile (· ≠ '/') =
        bundle ++ gap := by
      rw [List.takeWhile_append_of_pos hfront]
      simp
    have htrim := trim_surrounded (a := []) rfl hsolid hgap
    rw [hfull, trim_append_cons (by decide), hdrop, if_pos (by simp), htake]
    exact congrArg some htrim

theorem bundleOfLine?_bundleLine {indent bundle tail : Text} (hindent : allBlank indent = true)
    (hbundle : IsPackage bundle) (htail : IsRemark tail) :
    bundleOfLine? (bundleLine indent bundle tail) = some bundle := by
  have hin : bundleDeclaration <:+: bundleLine indent bundle tail :=
    ⟨indent, [' ', '=', ' ', '"'] ++ bundle ++ ['"', ';'] ++ tail, by simp [bundleLine]⟩
  rw [bundleOfLine?, if_pos (contains_iff.mpr hin)]
  dsimp only
  rw [replaceAll_bundleLine hindent hbundle]
  generalize hrest : replaceAll tail bundleDeclaration [] = rest
  have hremark : IsRemark (without (without (without rest '"') '=') ';') := by
    rw [← hrest]
    exact (((replaceAll_bundleDeclaration htail).without (by decide) (by decide)).without
      (by decide) (by decide)).without (by decide) (by decide)
  have hmarks : without (without (without
        (indent ++ [' ', '=', ' ', '"'] ++ bundle ++ ['"', ';'] ++ rest) '"') '=') ';' =
      (indent ++ [' ', ' ']) ++ bundle ++ without (without (without rest '"') '=') ';' := by
    have hkept : ∀ c, isBlank c = false → isNameChar c = false → c ≠ '.' →
        without indent c = indent ∧ without bundle c = bundle := fun c hblank hname hdot =>
      ⟨without_of_notMem (notMem_of_allBlank hindent hblank),
        without_of_notMem (hbundle.notMem hname hdot)⟩
    obtain ⟨hi, hb⟩ := hkept '"' (by decide) (by decide) (by decide)
    obtain ⟨hi', hb'⟩ := hkept '=' (by decide) (by decide) (by decide)
    obtain ⟨hi'', hb''⟩ := hkept ';' (by decide) (by decide) (by decide)
    simp only [without_append, hi, hb, hi', hb', hi'', hb'']
    simp [without]
  rw [hmarks]
  exact trim_before_remark (by simpa [allBlank] using ⟨List.all_eq_true.mp hindent, by decide⟩)
    hbundle hremark

end BundleEntry

/-! ## Two readers of the package -/

namespace Declaration

open Text BundleEntry

theorem packageOfLine?_eq_none {line : Text} (h : ¬ packageWord <+: trim line) :
    packageOfLine? line = none := by
  have hnot : ¬ "package ".toList <+: line := by
    rintro ⟨rest, rfl⟩
    exact h (packageWord_prefix_append (x := "package ".toList) (by decide) rest)
  rw [packageOfLine?, after?_eq_none_iff.mpr hnot]
  rfl

theorem rowwise_packageOfLine? : Rowwise packageOfLine? where
  of_blank t ht := by
    refine packageOfLine?_eq_none ?_
    rw [trim_eq_nil ht, List.prefix_nil]
    exact isPiece_packageWord.ne_nil
  of_lineEnd t c hc := by
    rw [packageOfLine?, packageOfLine?]
    cases ht : after? "package ".toList t with
    | none =>
      have hnot : ¬ "package ".toList <+: t ++ [c] := fun hfront =>
        after?_eq_none_iff.mp ht
          (prefix_of_prefix_append_cons (Unbroken.notMem (by decide) hc) hfront)
      rw [after?_eq_none_iff.mpr hnot]
    | some rest =>
      have hrest : after? "package ".toList (t ++ [c]) = some (rest ++ [c]) := by
        rw [after?_eq_some_iff.mp ht, List.append_assoc, after?_append]
      rw [hrest, Option.map_some, Option.map_some, without_append_lineEnd hc rfl,
        trim_append_singleton (isBlank_of_isLineEnd hc)]

theorem packageOfLine?_packageLine {package : Text} (h : IsPackage package) :
    packageOfLine? (packageLine package) = some package := by
  have hline : packageLine package = "package ".toList ++ (package ++ [';']) := by
    have hword : "package ".toList = packageWord ++ [' '] := by decide
    rw [hword, packageLine]
    simp
  have htrim := trim_surrounded (a := []) (b := []) rfl h.isBlank_eq_false rfl
  rw [packageOfLine?, hline, after?_append, Option.map_some, without_append,
    without_of_notMem (h.notMem (by decide) (by decide))]
  simpa [without] using htrim

end Declaration

namespace BundleEntry

open Text NlsBundle.Action

/-- **Conversion runs and setup runs agree on the package exactly if its name does not have the word
`package` in it.** A conversion run reads the declared package. A setup run that succeeds drops the
word from the name wherever it stands, and puts what is left before the class. -/
theorem accessor_eq_package_iff {s : Session} {path content package : Text}
    (hfile : s.Holds path content) (hpackage : IsPackage package)
    (hfirst : FirstLine (fun line => packageWord <+: trim line) content (packageLine package)) :
    outcome (Conversion.packageOf path) s = (.ok package, s) ∧
    ∀ entry s', outcome (Setup.readEntry path) s = (.ok entry, s') →
      ∃ className, (lines (unifyLineEnds content)).findSome? classOfLine? = some className ∧
        entry.accessor = replaceAll package packageWord [] ++ '.' :: className ∧
        (entry.accessor = package ++ '.' :: className ↔ ¬ packageWord <:+: package) := by
  constructor
  · have hfound : Declaration.package? content = some package := by
      rw [Declaration.package?, findSome?_lines Declaration.rowwise_packageOfLine?]
      exact hfirst.findSome? Declaration.rowwise_packageOfLine?
        (fun _ => Declaration.packageOfLine?_eq_none)
        (Declaration.packageOfLine?_packageLine hpackage)
    rw [Conversion.packageOf, outcome_bind_of_ok (outcome_readText_of_holds hfile), hfound]
    rfl
  · intro entry s' hread
    rw [Setup.readEntry, outcome_bind_of_ok (outcome_readText_of_holds hfile)] at hread
    obtain ⟨found, bundle, className, hfound, _, hclass, rfl⟩ :=
      ofClass_eq_ok_iff.mp (of_outcome_ofExcept_eq_ok hread)
    have hread :
        (rows content).findSome? packageOfLine? = some (replaceAll package packageWord []) :=
      hfirst.findSome? rowwise_packageOfLine? (fun _ => packageOfLine?_eq_none_iff.mpr)
        (packageOfLine?_packageLine hpackage)
    obtain rfl := Option.some.inj (hfound.symm.trans hread)
    refine ⟨className, ?_, rfl, ?_⟩
    · rw [findSome?_lines_unifyLineEnds rowwise_classOfLine?, hclass]
    · rw [List.append_left_inj, replaceAll_nil_eq_self_iff isPiece_packageWord.ne_nil]

/-- A session with a single file. -/
def singleFile (path content : Text) : Session where
  tree := .ofListing [(path, .text content)] []
  workingDirectory := "/".toList
  processors := 1
  answers := []
  threshold := .warning
  journal := .empty

/-- A small message class. -/
def packagedClass (package : Text) : Text :=
  packageLine package ++
    "\npublic class M \x7b\nprivate static final String BUNDLE_NAME = \"b\";\n\x7d\n".toList

theorem accessor_eq_package_iff_small :
    (outcome (Conversion.packageOf "/M".toList)
      (singleFile "/M".toList (packagedClass "a.b".toList))).1 =
        .ok "a.b".toList ∧
      ∃ entry s' className,
        outcome (Setup.readEntry "/M".toList)
          (singleFile "/M".toList (packagedClass "a.b".toList)) = (.ok entry, s') ∧
        entry.accessor = "a.b".toList ++ '.' :: className := by
  have hfile :
      (singleFile "/M".toList (packagedClass "a.b".toList)).Holds "/M".toList
        (packagedClass "a.b".toList) :=
    ⟨by decide, by decide +kernel⟩
  have hfirst : FirstLine (fun line => packageWord <+: trim line) (packagedClass "a.b".toList)
      (packageLine "a.b".toList) :=
    ⟨[], ['\n'], (lines (packagedClass "a.b".toList)).tail, by decide +kernel, by decide, by simp⟩
  obtain ⟨hpackage, hentry⟩ := accessor_eq_package_iff hfile (by decide) hfirst
  have hread :
      (outcome (Setup.readEntry "/M".toList)
        (singleFile "/M".toList (packagedClass "a.b".toList))).1 =
      .ok ⟨"a.b.M".toList, "b".toList⟩ := by decide +kernel
  obtain ⟨className, _, _, hiff⟩ := hentry _ _ (outcome_eq_of_fst hread)
  exact ⟨congrArg Prod.fst hpackage, _, _, className, outcome_eq_of_fst hread, hiff.mpr (by decide)⟩

/-- The word in the middle of a name is dropped as well, and the accessor names another class. -/
theorem accessor_drops_word :
    (outcome (Conversion.packageOf "/M".toList)
      (singleFile "/M".toList (packagedClass "a.package1".toList))).1 =
        .ok "a.package1".toList ∧
      (outcome (Setup.readEntry "/M".toList)
        (singleFile "/M".toList (packagedClass "a.package1".toList))).1 =
        .ok ⟨"a.1.M".toList, "b".toList⟩ := by
  decide +kernel

end BundleEntry

end NlsBundle
