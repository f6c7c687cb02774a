import Mathlib.Data.Char
import Mathlib.Data.List.Lex
import Mathlib.Data.Prod.Lex
import NlsBundle.Proofs.Name

/-!
# Building rules

A listing gives declaration lines with the paths of their files, and the packages of these files.
Proved here:

* `le_iff_key_le`: rules are ordered by their keys, part by part;
* `pairwise_arrange`: the rules of a run descend by their keys;
* `ofLine_eq_ok_iff`: a line has a rule exactly if it names a variable and the package of its file
  is known;
* `exists_build_eq_ok`: a listing whose lines all name their parts gives rules, one for each of its
  lines;
* `exists_variableName_of_build`: a listing with a line that names no variable gives none.
-/

namespace NlsBundle.Rule

/-! ## Order -/

/-- What rules are compared by. -/
def key (r : Rule) : ℕ ×ₗ List Char ×ₗ ℕ ×ₗ List Char :=
  toLex (r.variableName.length, toLex (r.variableName, toLex (r.className.length, r.usage)))

theorem le_iff_key_le (a b : Rule) : le a b = true ↔ key a ≤ key b := by
  unfold le key
  simp only [Prod.Lex.toLex_le_toLex]
  by_cases hlen : a.variableName.length = b.variableName.length
  · by_cases hname : a.variableName = b.variableName
    · by_cases hclass : a.className.length = b.className.length
      · simp [hname, hclass]
      · simp [hname, hclass]
    · simp [hlen, hname]
  · simp [hlen]

theorem pairwise_arrange (rules : List Rule) :
    (arrange rules).Pairwise fun a b => key b ≤ key a := by
  have htrans : ∀ a b c : Rule, le a b = true → le b c = true → le a c = true := by
    intro a b c hab hbc
    rw [le_iff_key_le] at hab hbc ⊢
    exact le_trans hab hbc
  have htotal : ∀ a b : Rule, (le a b || le b a) = true := by
    intro a b
    rw [Bool.or_eq_true, le_iff_key_le, le_iff_key_le]
    exact le_total (key a) (key b)
  rw [arrange, List.pairwise_reverse]
  exact (List.pairwise_mergeSort htrans htotal rules).imp fun h => (le_iff_key_le _ _).mp h

theorem mem_arrange {rules : List Rule} {r : Rule} : r ∈ arrange rules ↔ r ∈ rules := by
  rw [arrange, List.mem_reverse, List.mem_mergeSort]

theorem length_variableName_le {a b : Rule} (h : key a ≤ key b) :
    a.variableName.length ≤ b.variableName.length := by
  simp only [key, Prod.Lex.toLex_le_toLex] at h
  rcases h with h | ⟨h, _⟩ <;> omega

theorem variableName_eq_of_key_le {a b : Rule} (h : key a ≤ key b) (h' : key b ≤ key a) :
    a.variableName = b.variableName :=
  (Prod.mk.inj (toLex_inj.mp (Prod.mk.inj (toLex_inj.mp (le_antisymm h h'))).2)).1

/-- Of two rules the later one has the shorter variable or, where both are about one variable, the
shorter class. So it cannot be about a longer use: one whose variable goes on, or whose class has
more in front. -/
theorem eq_of_key_le {a b : Rule} (hk : key b ≤ key a) (hv : a.variableName <+: b.variableName)
    (hc : a.className <:+ b.className) :
    a.className = b.className ∧ a.variableName = b.variableName := by
  have hvlen := hv.length_le
  have hclen := hc.length_le
  simp only [key, Prod.Lex.toLex_le_toLex] at hk
  rcases hk with hlt | ⟨hlen, hk⟩
  · exact absurd hlt (Nat.not_lt.mpr hvlen)
  · have hname : a.variableName = b.variableName := hv.eq_of_length hlen.symm
    rw [hname] at hk
    rcases hk with hlt | ⟨_, hk⟩
    · exact absurd hlt (lt_irrefl _)
    · have hle : b.className.length ≤ a.className.length := by
        rcases hk with hlt | ⟨heq, _⟩ <;> omega
      exact ⟨hc.eq_of_length (by omega), hname⟩

/-! ## Listings -/

/-- The rule of some line of the listing. -/
def Listed (lines : List (Text × List Text)) (packages : List (Text × Text)) (r : Rule) : Prop :=
  ∃ file ∈ lines, ∃ line ∈ file.2, ofLine packages file.1 line = .ok r

/-- All lines of a listing declare a variable with a name, in a class with a name, in a package. -/
def NamedListing (lines : List (Text × List Text)) (packages : List (Text × Text)) : Prop :=
  ∀ file ∈ lines, ∀ line ∈ file.2, ∃ r, ofLine packages file.1 line = .ok r ∧ r.WellNamed

theorem listed_imp_iff {lines : List (Text × List Text)} {packages : List (Text × Text)}
    {P : Rule → Prop} :
    (∀ r, Listed lines packages r → P r) ↔
      ∀ file ∈ lines, ∀ line ∈ file.2, ∀ r ∈ (ofLine packages file.1 line).toOption, P r := by
  constructor
  · intro h file hfile line hline r hr
    refine h r ⟨file, hfile, line, hline, ?_⟩
    cases hok : ofLine packages file.1 line with
    | error e => simp [hok, Except.toOption] at hr
    | ok r' => simp_all [Except.toOption]
  · rintro h r ⟨file, hfile, line, hline, hok⟩
    exact h file hfile line hline r (by simp [hok, Except.toOption])

instance (lines : List (Text × List Text)) (packages : List (Text × Text)) (P : Rule → Prop)
    [DecidablePred P] :
    Decidable (∀ r, Listed lines packages r → P r) :=
  decidable_of_iff _ listed_imp_iff.symm

instance (lines : List (Text × List Text)) (packages : List (Text × Text)) (r : Rule) :
    Decidable (Listed lines packages r) :=
  inferInstanceAs (Decidable (∃ file ∈ lines, ∃ line ∈ file.2, ofLine packages file.1 line = .ok r))

instance (lines : List (Text × List Text)) (packages : List (Text × Text)) :
    Decidable (NamedListing lines packages) :=
  decidable_of_iff (∀ file ∈ lines, ∀ line ∈ file.2,
      ∃ r ∈ (ofLine packages file.1 line).toOption, r.WellNamed) (by
    refine forall₂_congr fun file _ => forall₂_congr fun line _ => exists_congr fun r => ?_
    cases ofLine packages file.1 line <;> simp [Except.toOption])

/-- A line has a rule exactly if it names a variable and the package of its file is known. -/
theorem ofLine_eq_ok_iff {packages : List (Text × Text)} {path line : Text} {r : Rule} :
    ofLine packages path line = .ok r ↔ ∃ name package, Declaration.variableName line = .ok name ∧
      packages.lookup path = some package ∧
        r = ofVariable (Declaration.className path) name package := by
  unfold ofLine
  cases hname : Declaration.variableName line with
  | error e => simp [Except.mapError, bind, Except.bind]
  | ok name =>
    cases hpackage : packages.lookup path with
    | none => simp [Except.mapError, bind, Except.bind]
    | some package => simp [Except.mapError, bind, Except.bind, eq_comm]

/-- A rule has its class from the path of the file, and its package from what is known about that
path. -/
theorem of_ofLine_eq_ok {packages : List (Text × Text)} {path line : Text} {r : Rule}
    (h : ofLine packages path line = .ok r) :
    r.className = Declaration.className path ∧ packages.lookup path = some r.package := by
  obtain ⟨name, package, _, hpackage, rfl⟩ := ofLine_eq_ok_iff.mp h
  exact ⟨rfl, hpackage⟩

theorem NamedListing.wellNamed {lines : List (Text × List Text)} {packages : List (Text × Text)}
    (h : NamedListing lines packages) {r : Rule} (hr : Listed lines packages r) : r.WellNamed := by
  obtain ⟨file, hfile, line, hline, hok⟩ := hr
  obtain ⟨r', hok', hwell⟩ := h file hfile line hline
  rw [hok] at hok'
  cases hok'
  exact hwell

theorem exists_mapM_eq_ok {ε α β : Type} {f : α → Except ε β} {xs : List α}
    (h : ∀ x ∈ xs, ∃ y, f x = .ok y) :
    ∃ ys, xs.mapM f = .ok ys ∧ ∀ y, y ∈ ys ↔ ∃ x ∈ xs, f x = .ok y := by
  induction xs with
  | nil => exact ⟨[], rfl, by simp⟩
  | cons x xs ih =>
    obtain ⟨y, hy⟩ := h x List.mem_cons_self
    obtain ⟨ys, hys, hmem⟩ := ih fun z hz => h z (List.mem_cons_of_mem x hz)
    refine ⟨y :: ys, ?_, ?_⟩
    · rw [List.mapM_cons, hy, hys]
      rfl
    · intro z
      simp [hmem, hy, eq_comm]

theorem of_mapM_cons_eq_ok {ε α β : Type} {f : α → Except ε β} {x : α} {xs : List α} {zs : List β}
    (h : (x :: xs).mapM f = .ok zs) : ∃ y ys, f x = .ok y ∧ xs.mapM f = .ok ys ∧ zs = y :: ys := by
  rw [List.mapM_cons] at h
  cases hx : f x with
  | error e =>
    rw [hx] at h
    cases h
  | ok y =>
    rw [hx] at h
    cases hxs : xs.mapM f with
    | error e =>
      rw [hxs] at h
      cases h
    | ok ys =>
      rw [hxs] at h
      cases h
      exact ⟨y, ys, rfl, rfl, rfl⟩

theorem map_ok_of_mapM_eq_ok {ε α β : Type} {f : α → Except ε β} {xs : List α} {ys : List β}
    (h : xs.mapM f = .ok ys) : ys.map Except.ok = xs.map f := by
  induction xs generalizing ys with
  | nil =>
    cases h
    rfl
  | cons x xs ih =>
    obtain ⟨y, zs, hx, hxs, rfl⟩ := of_mapM_cons_eq_ok h
    rw [List.map_cons, List.map_cons, hx, ih hxs]

theorem exists_of_mapM_eq_ok {ε α β : Type} {f : α → Except ε β} {xs : List α} {ys : List β}
    (h : xs.mapM f = .ok ys) : ∀ x ∈ xs, ∃ y, f x = .ok y := by
  intro x hx
  have hmem : f x ∈ ys.map Except.ok := by
    rw [map_ok_of_mapM_eq_ok h]
    exact List.mem_map_of_mem hx
  obtain ⟨y, _, hy⟩ := List.mem_map.mp hmem
  exact ⟨y, hy.symm⟩

/-- Rules are built file by file, in the order of the paths, and then arranged. -/
theorem of_build_eq_ok {lines : List (Text × List Text)} {packages : List (Text × Text)}
    {rules : List Rule} (h : build lines packages = .ok rules) :
    ∃ groups, (lines.mergeSort fun a b => ¬ b.1 < a.1).mapM
      (fun file => file.2.mapM (ofLine packages file.1)) =
      .ok groups ∧ rules = arrange groups.flatten := by
  rw [build] at h
  simp only [bind, Except.bind] at h
  split at h
  · cases h
  · rename_i groups hgroups
    cases h
    exact ⟨groups, hgroups, rfl⟩

/-- Rules are built only where every line names a variable. -/
theorem exists_variableName_of_build {lines : List (Text × List Text)}
    {packages : List (Text × Text)} {rules : List Rule} (h : build lines packages = .ok rules)
    {file : Text × List Text} (hfile : file ∈ lines) {line : Text} (hline : line ∈ file.2) :
    ∃ name, Declaration.variableName line = .ok name := by
  obtain ⟨groups, hgroups, _⟩ := of_build_eq_ok h
  obtain ⟨rs, hrs⟩ := exists_of_mapM_eq_ok hgroups file (List.mem_mergeSort.mpr hfile)
  obtain ⟨r, hr⟩ := exists_of_mapM_eq_ok hrs line hline
  obtain ⟨name, _, hname, _⟩ := ofLine_eq_ok_iff.mp hr
  exact ⟨name, hname⟩

/-- A listing of names gives rules: those of its lines, in descending order. -/
theorem exists_build_eq_ok {lines : List (Text × List Text)} {packages : List (Text × Text)}
    (h : NamedListing lines packages) :
    ∃ rules, build lines packages = .ok rules ∧ (∀ r, r ∈ rules ↔ Listed lines packages r) ∧
      rules.Pairwise fun a b => key b ≤ key a := by
  have hfile : ∀ file ∈ lines, ∃ rs, file.2.mapM (ofLine packages file.1) = .ok rs ∧
      ∀ r, r ∈ rs ↔ ∃ line ∈ file.2, ofLine packages file.1 line = .ok r := fun file hf =>
    exists_mapM_eq_ok fun line hline => (h file hf line hline).imp fun _ hr => hr.1
  have hsorted : ∀ file ∈ lines.mergeSort fun a b => ¬ b.1 < a.1, ∃ rs,
      file.2.mapM (ofLine packages file.1) = .ok rs := fun file hf =>
    (hfile file (List.mem_mergeSort.mp hf)).imp fun _ hrs => hrs.1
  obtain ⟨ruless, hbuild, hmem⟩ := exists_mapM_eq_ok hsorted
  refine ⟨arrange ruless.flatten, ?_, ?_, pairwise_arrange _⟩
  · rw [build]
    simp only [bind, Except.bind]
    rw [hbuild]
  · intro r
    rw [mem_arrange, List.mem_flatten]
    constructor
    · rintro ⟨rs, hrs, hr⟩
      obtain ⟨file, hf, hok⟩ := (hmem rs).mp hrs
      rw [List.mem_mergeSort] at hf
      obtain ⟨rs', hok', hmem'⟩ := hfile file hf
      rw [hok] at hok'
      cases hok'
      obtain ⟨line, hline, hl⟩ := (hmem' r).mp hr
      exact ⟨file, hf, line, hline, hl⟩
    · rintro ⟨file, hf, line, hline, hl⟩
      obtain ⟨rs, hok, hmem'⟩ := hfile file hf
      exact ⟨rs, (hmem rs).mpr ⟨file, List.mem_mergeSort.mpr hf, hok⟩,
        (hmem' r).mpr ⟨line, hline, hl⟩⟩

end NlsBundle.Rule
