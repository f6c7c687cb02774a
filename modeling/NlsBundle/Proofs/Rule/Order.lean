import Mathlib.Data.List.Nodup
import Mathlib.Data.List.Perm.Basic
import NlsBundle.Proofs.Rule.Build

/-!
# The order of rules

Rules are built file by file, in the order of the paths, and then arranged. Proved here:

* `lookup_eq_of_perm`, `mergeSort_eq_of_perm`: where each path has one entry, the order of the
  entries makes no difference to what is known about a path, nor to the order of the paths;
* `build_eq_of_perm`: so it makes no difference to the rules, not even to the reason why there are
  none;
* `map_ok_perm_of_build`: the rules are those of the lines, each as often as there is a line for it;
* `variableName_eq_of_part`, `usage_eq_of_part`: of two rules, the one that is arranged first is not
  about a part of what the other one is about;
* `build_arranged`: all of this together.
-/

namespace NlsBundle.Rule

variable {lines lines' : List (Text × List Text)} {packages packages' : List (Text × Text)}
    {rules : List Rule}

/-! ## Entries in any order -/

section

variable {α : Type} {xs ys : List (Text × α)}

theorem lookup_eq_of_perm (h : xs.Perm ys) (hdistinct : (xs.map Prod.fst).Nodup) (path : Text) :
    xs.lookup path = ys.lookup path := by
  induction h with
  | nil => rfl
  | cons entry _ ih =>
    rw [List.map_cons, List.nodup_cons] at hdistinct
    rw [List.lookup_cons, List.lookup_cons, ih hdistinct.2]
  | swap entry other rest =>
    have hne : other.1 ≠ entry.1 := by
      intro heq
      simp [heq] at hdistinct
    rw [List.lookup_cons, List.lookup_cons, List.lookup_cons, List.lookup_cons]
    by_cases hother : path = other.1
    · have hentry : (path == entry.1) = false := by simpa [hother] using hne
      rw [hentry]
    · have hmiss : (path == other.1) = false := by simpa using hother
      rw [hmiss]
  | trans h₁ _ ih₁ ih₂ =>
      exact (ih₁ hdistinct).trans (ih₂ ((h₁.map Prod.fst).nodup_iff.mp hdistinct))

theorem pairwise_mergeSort_path (xs : List (Text × α)) :
    (xs.mergeSort fun a b => ¬ b.1 < a.1).Pairwise fun a b => a.1 ≤ b.1 := by
  have htrans : ∀ a b c : Text × α, decide (¬ b.1 < a.1) = true → decide (¬ c.1 < b.1) = true →
      decide (¬ c.1 < a.1) = true := by
    intro a b c hab hbc
    rw [decide_eq_true_eq, not_lt] at hab hbc ⊢
    exact le_trans hab hbc
  have htotal : ∀ a b : Text × α, (decide (¬ b.1 < a.1) || decide (¬ a.1 < b.1)) = true := by
    intro a b
    rw [Bool.or_eq_true, decide_eq_true_eq, decide_eq_true_eq, not_lt, not_lt]
    exact le_total a.1 b.1
  refine (List.pairwise_mergeSort htrans htotal xs).imp fun {a b} h => ?_
  rwa [decide_eq_true_eq, not_lt] at h

/-- Entries with different paths can be sorted in one way only. -/
theorem mergeSort_eq_of_perm (h : xs.Perm ys) (hdistinct : (xs.map Prod.fst).Nodup) :
    (xs.mergeSort fun a b => ¬ b.1 < a.1) = ys.mergeSort fun a b => ¬ b.1 < a.1 := by
  refine List.Perm.eq_of_pairwise ?_ (pairwise_mergeSort_path xs) (pairwise_mergeSort_path ys)
    ((List.mergeSort_perm xs _).trans (h.trans (List.mergeSort_perm ys _).symm))
  intro a b ha hb hab hba
  rw [List.mem_mergeSort] at ha hb
  exact List.inj_on_of_nodup_map hdistinct ha (h.mem_iff.mpr hb) (le_antisymm hab hba)

end

theorem build_eq_of_perm (hlines : lines.Perm lines') (hpaths : (lines.map Prod.fst).Nodup)
    (hpackages : packages.Perm packages') (hkeys : (packages.map Prod.fst).Nodup) :
    build lines packages = build lines' packages' := by
  have hofLine : ofLine packages = ofLine packages' := by
    funext path line
    rw [ofLine, ofLine, lookup_eq_of_perm hpackages hkeys path]
  rw [build, build, mergeSort_eq_of_perm hlines hpaths, hofLine]

/-! ## One rule for each line -/

theorem arrange_perm (rules : List Rule) : (arrange rules).Perm rules :=
  (List.reverse_perm _).trans (List.mergeSort_perm rules le)

theorem map_ok_flatten {groups : List (List Rule)} {files : List (Text × List Text)}
    (h : files.mapM (fun file => file.2.mapM (ofLine packages file.1)) = .ok groups) :
    groups.flatten.map Except.ok =
      files.flatMap fun file => file.2.map (ofLine packages file.1) := by
  induction files generalizing groups with
  | nil =>
    cases h
    rfl
  | cons file files ih =>
    obtain ⟨group, rest, hgroup, hrest, rfl⟩ := of_mapM_cons_eq_ok h
    rw [List.flatten_cons, List.map_append, List.flatMap_cons, ih hrest,
      map_ok_of_mapM_eq_ok hgroup]

/-- The rules are those of the lines, no more and no fewer. -/
theorem map_ok_perm_of_build (h : build lines packages = .ok rules) :
    (rules.map Except.ok).Perm (lines.flatMap fun file => file.2.map (ofLine packages file.1)) := by
  obtain ⟨groups, hgroups, rfl⟩ := of_build_eq_ok h
  refine ((arrange_perm groups.flatten).map Except.ok).trans ?_
  rw [map_ok_flatten hgroups]
  exact (List.mergeSort_perm lines _).flatMap_right _

theorem usage_eq_of_mem (h : build lines packages = .ok rules) {r : Rule} (hr : r ∈ rules) :
    r.usage = r.className ++ '.' :: r.variableName := by
  have hmem := (map_ok_perm_of_build h).mem_iff.mp (List.mem_map_of_mem hr)
  obtain ⟨file, _, hlines⟩ := List.mem_flatMap.mp hmem
  obtain ⟨line, _, hline⟩ := List.mem_map.mp hlines
  obtain ⟨name, package, _, _, rfl⟩ := ofLine_eq_ok_iff.mp hline
  rfl

/-! ## Parts of later rules -/

section

variable {a b : Rule}

theorem variableName_eq_of_part (hk : key b ≤ key a) (h : a.variableName <:+: b.variableName) :
    a.variableName = b.variableName :=
  h.eq_of_length (Nat.le_antisymm h.length_le (length_variableName_le hk))

/-- The one dot of a use that lies in another use is the dot of that one. So its class is an end of
the other class and its variable a beginning of the other variable. -/
theorem suffix_and_prefix_of_part {c c' v v' : Text} (hc : '.' ∉ c') (hv : '.' ∉ v')
    (h : c ++ '.' :: v <:+: c' ++ '.' :: v') : c <:+ c' ∧ v <+: v' := by
  obtain ⟨before, after, heq⟩ := h
  have hsplit : c' ++ '.' :: v' = (before ++ c) ++ '.' :: (v ++ after) := by
    rw [← heq]
    simp
  obtain ⟨rfl, _, rfl⟩ := (List.append_cons_inj_of_notMem hc hv).mp hsplit
  exact ⟨List.suffix_append before c, List.prefix_append v after⟩

theorem usage_eq_of_part (ha : a.usage = a.className ++ '.' :: a.variableName)
    (hb : b.usage = b.className ++ '.' :: b.variableName) (hclass : '.' ∉ b.className)
    (hvariable : '.' ∉ b.variableName) (hk : key b ≤ key a) (h : a.usage <:+: b.usage) :
    a.usage = b.usage := by
  rw [ha, hb] at h ⊢
  obtain ⟨hsuffix, hprefix⟩ := suffix_and_prefix_of_part hclass hvariable h
  obtain ⟨hc, hv⟩ := eq_of_key_le hk hprefix hsuffix
  rw [hc, hv]

end

/-- **The order of rules excludes partial replacements.** The rules of a listing in which each path
has one entry are the rules of its lines, each as often as there is a line for it, and they come in
the same order however the entries are ordered. No rule comes before one whose variable has its
variable as a proper part. If there are no dots in the names, then no rule comes before one whose
use has its use as a proper part. -/
theorem build_arranged (hlines : (lines.map Prod.fst).Nodup)
    (hpackages : (packages.map Prod.fst).Nodup) (h : build lines packages = .ok rules) :
    (rules.map Except.ok).Perm (lines.flatMap fun file => file.2.map (ofLine packages file.1)) ∧
    (∀ lines' packages', lines.Perm lines' → packages.Perm packages' →
      build lines' packages' = .ok rules) ∧
    rules.Pairwise
      (fun a b => ¬ (a.variableName <:+: b.variableName ∧ a.variableName ≠ b.variableName)) ∧
    ((∀ r ∈ rules, '.' ∉ r.className ∧ '.' ∉ r.variableName) →
      rules.Pairwise fun a b => ¬ (a.usage <:+: b.usage ∧ a.usage ≠ b.usage)) := by
  have hordered : rules.Pairwise fun a b => key b ≤ key a := by
    obtain ⟨groups, _, rfl⟩ := of_build_eq_ok h
    exact pairwise_arrange groups.flatten
  refine ⟨map_ok_perm_of_build h, ?_, ?_, ?_⟩
  · intro lines' packages' hperm hperm'
    rw [← build_eq_of_perm hperm hlines hperm' hpackages, h]
  · refine hordered.imp fun hk hpart => ?_
    exact hpart.2 (variableName_eq_of_part hk hpart.1)
  · intro hdots
    refine hordered.imp_of_mem fun {a b} ha hb hk hpart => ?_
    obtain ⟨hclass, hvariable⟩ := hdots b hb
    exact hpart.2
      (usage_eq_of_part (usage_eq_of_mem h ha) (usage_eq_of_mem h hb) hclass hvariable hk hpart.1)

/-- Two classes of one name, a class whose name ends in that name, a variable that another one
begins with, and a line that stands twice. -/
def overlappingLines : List (Text × List Text) :=
  [("p/M.java".toList, ["public static String a;".toList, "public static String a;".toList]),
    ("q/M.java".toList, ["public static String a;".toList]),
    ("q/XM.java".toList, ["public static String a;".toList, "public static String ab;".toList])]

def overlappingPackages : List (Text × Text) :=
  [("p/M.java".toList, "p".toList), ("q/M.java".toList, "q".toList),
    ("q/XM.java".toList, "q".toList)]

/-- The rules of these lines, file by file. -/
def overlappingGroups : List (List Rule) :=
  [[.ofVariable "M".toList "a".toList "p".toList, .ofVariable "M".toList "a".toList "p".toList],
    [.ofVariable "M".toList "a".toList "q".toList],
    [.ofVariable "XM".toList "a".toList "q".toList, .ofVariable "XM".toList "ab".toList "q".toList]]

theorem build_arranged_overlap :
    (overlappingLines.map Prod.fst).Nodup ∧ (overlappingPackages.map Prod.fst).Nodup ∧
    build overlappingLines overlappingPackages = .ok overlappingGroups.flatten.reverse ∧
    build overlappingLines.reverse overlappingPackages.reverse =
      .ok overlappingGroups.flatten.reverse ∧
    overlappingGroups.flatten.reverse.Pairwise fun a b =>
      ¬ (a.usage <:+: b.usage ∧ a.usage ≠ b.usage) := by
  have hlines : (overlappingLines.map Prod.fst).Nodup := by decide
  have hpackages : (overlappingPackages.map Prod.fst).Nodup := by decide
  have hbuild :
      build overlappingLines overlappingPackages = .ok overlappingGroups.flatten.reverse := by
    -- the entries and their rules ascend already, so that sorting leaves them as they are
    have hgroups :
        (overlappingLines.mapM fun file => file.2.mapM (ofLine overlappingPackages file.1)) =
        .ok overlappingGroups := by decide +kernel
    have hsorted : overlappingGroups.flatten.mergeSort le = overlappingGroups.flatten :=
      List.mergeSort_of_pairwise (by decide)
    rw [build, List.mergeSort_of_pairwise (by decide), hgroups]
    exact congrArg (fun rules => Except.ok rules.reverse) hsorted
  obtain ⟨_, hperm, _, husage⟩ := build_arranged hlines hpackages hbuild
  exact ⟨hlines, hpackages, hbuild, hperm _ _ (List.reverse_perm _).symm (List.reverse_perm _).symm,
    husage (by decide)⟩

end NlsBundle.Rule
