import NlsBundle.Text.Basic

/-!
# Occurrences

What the searches of `Text.Basic` find:

* `after?_eq_some_iff`: a text begins with a piece exactly if something follows it;
* `eq_of_cut?`, `length_le_of_cut?`: the first occurrence is one, and none begins before it;
* `contains_iff`: a piece is found exactly if it occurs;
* `eq_of_cutLast?`: the last occurrence is one;
* `join_concat`: one more piece at the end is joined with one more separator;
* `join_splitWhere`: division at a separator loses nothing.
-/

namespace NlsBundle.Text

theorem after?_eq_some_iff {piece t rest : Text} :
    after? piece t = some rest ↔ t = piece ++ rest := by
  induction piece generalizing t with
  | nil => simp [after?]
  | cons p piece ih =>
    cases t with
    | nil => simp [after?]
    | cons c t =>
      by_cases h : p = c
      · subst h
        simp [after?, ih]
      · simp [after?, h, Ne.symm h]

@[simp] theorem after?_append (piece rest : Text) : after? piece (piece ++ rest) = some rest :=
  after?_eq_some_iff.mpr rfl

theorem after?_eq_none_iff {piece t : Text} : after? piece t = none ↔ ¬ piece <+: t := by
  rw [Option.eq_none_iff_forall_ne_some]
  constructor
  · rintro h ⟨rest, rfl⟩
    exact h rest (after?_append piece rest)
  · intro h rest hr
    exact h ⟨rest, (after?_eq_some_iff.mp hr).symm⟩

/-! ## First occurrence -/

theorem eq_of_cut? {piece t before rest : Text} (h : cut? piece t = some (before, rest)) :
    t = before ++ piece ++ rest := by
  induction t generalizing before with
  | nil =>
    by_cases hp : piece = []
    · simp [cut?, hp] at h
      simp [h, hp]
    · simp [cut?, hp] at h
  | cons c t ih =>
    cases ha : after? piece (c :: t) with
    | some r =>
      simp [cut?, ha] at h
      obtain ⟨rfl, rfl⟩ := h
      simpa using after?_eq_some_iff.mp ha
    | none =>
      simp only [cut?, ha, Option.map_eq_some_iff, Prod.exists, Prod.mk.injEq] at h
      obtain ⟨a, b, hcut, rfl, rfl⟩ := h
      simpa using ih hcut

/-- An occurrence is found wherever there is one, and the one found is the first. -/
theorem exists_cut? (piece before rest : Text) :
    ∃ a b, cut? piece (before ++ piece ++ rest) = some (a, b) ∧ a.length ≤ before.length := by
  induction before with
  | nil =>
    cases hp : piece with
    | nil => exact ⟨[], rest, by cases rest <;> simp [cut?, after?], by simp⟩
    | cons p ps =>
      refine ⟨[], rest, ?_, by simp⟩
      have ha : after? (p :: ps) (p :: (ps ++ rest)) = some rest := after?_append (p :: ps) rest
      simp [cut?, ha]
  | cons c before ih =>
    obtain ⟨a, b, hcut, hle⟩ := ih
    cases ha : after? piece (c :: (before ++ (piece ++ rest))) with
    | some r => exact ⟨[], r, by simp [cut?, ha], by simp⟩
    | none => exact ⟨c :: a, b, by simpa [cut?, ha] using hcut, by simpa using hle⟩

/-- No occurrence begins before the one that is found. -/
theorem length_le_of_cut? {piece t before rest : Text} (h : cut? piece t = some (before, rest))
    {a b : Text} (ht : t = a ++ piece ++ b) : before.length ≤ a.length := by
  obtain ⟨x, y, hcut, hle⟩ := exists_cut? piece a b
  rw [← ht, h] at hcut
  cases hcut
  exact hle

theorem contains_iff {t piece : Text} : contains t piece = true ↔ piece <:+: t := by
  unfold contains
  rw [Option.isSome_iff_exists]
  constructor
  · rintro ⟨⟨a, b⟩, h⟩
    exact ⟨a, b, (eq_of_cut? h).symm⟩
  · rintro ⟨a, b, rfl⟩
    obtain ⟨x, y, h, _⟩ := exists_cut? piece a b
    exact ⟨(x, y), h⟩

/-! ## Last occurrence -/

theorem eq_of_cutLast? {piece t before rest : Text} (h : cutLast? piece t = some (before, rest)) :
    t = before ++ piece ++ rest := by
  induction t generalizing before rest with
  | nil =>
    by_cases hp : piece = []
    · simp [cutLast?, hp] at h
      simp [h, hp]
    · simp [cutLast?, hp] at h
  | cons c t ih =>
    cases hl : cutLast? piece t with
    | some found =>
      obtain ⟨a, b⟩ := found
      simp [cutLast?, hl] at h
      obtain ⟨rfl, rfl⟩ := h
      simpa using ih hl
    | none =>
      simp only [cutLast?, hl, Option.map_eq_some_iff, Prod.mk.injEq] at h
      obtain ⟨r, ha, rfl, rfl⟩ := h
      simpa using after?_eq_some_iff.mp ha

/-! ## Division -/

theorem splitWhere_ne_nil (isSeparator : Char → Bool) (t : Text) :
    splitWhere isSeparator t ≠ [] := by
  cases t with
  | nil => simp [splitWhere]
  | cons c t =>
    unfold splitWhere
    split
    · simp
    · split <;> simp

@[simp] theorem join_cons_cons (separator a b : Text) (pieces : List Text) :
    join separator (a :: b :: pieces) = a ++ separator ++ join separator (b :: pieces) := rfl

theorem join_concat (separator : Text) {pieces : List Text} (hne : pieces ≠ []) (piece : Text) :
    join separator (pieces ++ [piece]) = join separator pieces ++ separator ++ piece := by
  induction pieces with
  | nil => exact absurd rfl hne
  | cons first pieces ih =>
    cases pieces with
    | nil => rfl
    | cons next pieces =>
      rw [List.cons_append, List.cons_append, join_cons_cons, ← List.cons_append, ih (by simp),
        join_cons_cons]
      simp

/-- Division at one separator character loses nothing. -/
theorem join_splitWhere (separator : Char) (t : Text) :
    join [separator] (splitWhere (· = separator) t) = t := by
  induction t with
  | nil => rfl
  | cons c t ih =>
    cases hs : splitWhere (· = separator) t with
    | nil => exact absurd hs (splitWhere_ne_nil _ t)
    | cons piece pieces =>
      rw [hs] at ih
      by_cases hc : c = separator
      · simp [splitWhere, hc, hs, ih]
      · cases pieces with
        | nil =>
          simp [join] at ih
          simp [splitWhere, hc, hs, join, ih]
        | cons next pieces =>
          have hsplit : splitWhere (· = separator) (c :: t) = (c :: piece) :: next :: pieces := by
            simp [splitWhere, hc, hs]
          rw [hsplit, ← ih]
          rfl

end NlsBundle.Text
