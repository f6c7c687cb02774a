import Mathlib.Data.List.DropRight
import NlsBundle.Proofs.Text.Separator
import NlsBundle.Text.Blank

/-!
# Trimming

Trimming keeps everything between the first and the last character that is not blank:

* `trim_append_cons`: on the two sides of a character that is not blank it works on its own;
* `trim_append_singleton`: a blank at the end makes no difference;
* `trim_surrounded`: blanks around a text without blanks are dropped, and nothing else;
* `prefix_trim_iff`: a word begins the trimmed text exactly if it begins the text after its first
  blanks.
-/

namespace NlsBundle.Text

theorem trim_eq_rdropWhile (t : Text) : trim t = (t.dropWhile isBlank).rdropWhile isBlank := rfl

theorem dropWhile_append_cons {c : Char} (hc : isBlank c = false) (a b : Text) :
    (a ++ c :: b).dropWhile isBlank = a.dropWhile isBlank ++ c :: b := by
  induction a with
  | nil => simp [hc]
  | cons d a ih =>
    by_cases hd : isBlank d = true
    · simpa [hd] using ih
    · simp [hd]

theorem rdropWhile_append_cons {c : Char} (hc : isBlank c = false) (a b : Text) :
    (a ++ c :: b).rdropWhile isBlank = a ++ c :: b.rdropWhile isBlank := by
  induction b using List.reverseRecOn with
  | nil => exact List.rdropWhile_concat_neg isBlank a c (by simp [hc])
  | append_singleton b d ih =>
    have hsplit : a ++ c :: (b ++ [d]) = (a ++ c :: b) ++ [d] := by simp
    rw [hsplit, List.rdropWhile_concat, List.rdropWhile_concat, ih]
    split
    · rfl
    · rw [hsplit]

theorem trim_append_cons {c : Char} (hc : isBlank c = false) (a b : Text) :
    trim (a ++ c :: b) = a.dropWhile isBlank ++ c :: b.rdropWhile isBlank := by
  rw [trim_eq_rdropWhile, dropWhile_append_cons hc, rdropWhile_append_cons hc]

theorem trim_eq_nil {t : Text} (h : allBlank t = true) : trim t = [] := by
  rw [trim_eq_rdropWhile, List.dropWhile_eq_nil_iff.mpr (List.all_eq_true.mp h),
    List.rdropWhile_nil]

theorem trim_append_singleton {c : Char} (hc : isBlank c = true) (t : Text) :
    trim (t ++ [c]) = trim t := by
  by_cases ht : allBlank t = true
  · have htc : allBlank (t ++ [c]) = true := by simpa [allBlank, hc] using ht
    rw [trim_eq_nil ht, trim_eq_nil htc]
  · obtain ⟨d, hd, hsolid⟩ : ∃ d ∈ t, isBlank d = false := by simpa [allBlank] using ht
    obtain ⟨a, b, rfl⟩ := List.append_of_mem hd
    rw [List.append_assoc, List.cons_append, trim_append_cons hsolid, trim_append_cons hsolid,
      List.rdropWhile_concat_pos isBlank b c hc]

/-- A text without blanks is what is left of it when there are blanks around it. -/
theorem trim_surrounded {a x b : Text} (ha : allBlank a = true) (hx : ∀ c ∈ x, isBlank c = false)
    (hb : allBlank b = true) : trim (a ++ x ++ b) = x := by
  induction b using List.reverseRecOn with
  | nil =>
    rw [List.append_nil]
    rcases List.eq_nil_or_concat x with rfl | ⟨y, c, rfl⟩
    · rw [List.append_nil, trim_eq_nil ha]
    · rw [List.concat_eq_append] at hx ⊢
      rw [← List.append_assoc, trim_append_cons (hx c (by simp)), List.rdropWhile_nil]
      have hdrop : (a ++ y).dropWhile isBlank = y.dropWhile isBlank :=
        List.dropWhile_append_of_pos (List.all_eq_true.mp ha)
      rw [hdrop]
      cases y with
      | nil => rfl
      | cons d y => simp [hx d (by simp)]
  | append_singleton b c ih =>
    have hblank : allBlank b = true ∧ isBlank c = true := by simpa [allBlank] using hb
    rw [← List.append_assoc, trim_append_singleton hblank.2, ih hblank.1]

theorem prefix_trim_iff {w t : Text} (hw : ∀ c ∈ w, isBlank c = false) :
    w <+: trim t ↔ w <+: t.dropWhile isBlank := by
  rw [trim_eq_rdropWhile]
  generalize t.dropWhile isBlank = d
  constructor
  · intro h
    exact h.trans (List.rdropWhile_prefix isBlank d)
  · intro h
    rw [← List.rdropWhile_append_rtakeWhile (p := isBlank) (l := d)] at h
    cases htail : d.rtakeWhile isBlank with
    | nil => rwa [htail, List.append_nil] at h
    | cons c tail =>
      have hc : isBlank c = true :=
        List.mem_rtakeWhile_imp (p := isBlank) (l := d) (htail ▸ List.mem_cons_self)
      have hcw : c ∉ w := fun hmem => by simp [hw c hmem] at hc
      rw [htail] at h
      exact prefix_of_prefix_append_cons hcw h

/-- A word at the front stays there, whatever follows. -/
theorem prefix_trim_append {w x : Text} (hw : ∀ c ∈ w, isBlank c = false) (hne : w ≠ [])
    (h : w <+: trim x) (y : Text) :
    w <+: trim (x ++ y) := by
  rw [prefix_trim_iff hw] at h ⊢
  induction x with
  | nil => exact absurd (List.prefix_nil.mp h) hne
  | cons c x ih =>
    by_cases hc : isBlank c = true
    · rw [List.dropWhile_cons_of_pos hc] at h
      rw [List.cons_append, List.dropWhile_cons_of_pos hc]
      exact ih h
    · rw [List.dropWhile_cons_of_neg hc] at h
      rw [List.cons_append, List.dropWhile_cons_of_neg hc, ← List.cons_append]
      exact h.trans (List.prefix_append _ y)

/-- A word at the front does not reach across a character that it lacks. -/
theorem prefix_trim_of_append_cons {w x y : Text} {c : Char} (hw : ∀ d ∈ w, isBlank d = false)
    (hc : isBlank c = false) (hcw : c ∉ w) (h : w <+: trim (x ++ c :: y)) : w <+: trim x := by
  rw [prefix_trim_iff hw, dropWhile_append_cons hc] at h
  rw [prefix_trim_iff hw]
  exact prefix_of_prefix_append_cons hcw h

end NlsBundle.Text
