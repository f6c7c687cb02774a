import NlsBundle.Pattern.Match
import NlsBundle.Proofs.Text.Replace

/-!
# Searching for patterns of fixed width

A pattern that is a row of character sets takes one character for each of them. Proved here:

* `fits_sequence`: such a row matches at the places where each character belongs to its set, and
  nowhere else;
* `search?_cases`: a search for a pattern of fixed width finds the first place where it fits, or
  there is none;
* `fits_literal`: a pattern that stands for itself matches at the places where its text begins;
* `occursIn_literal`: so it matches somewhere exactly if its text occurs.
-/

namespace NlsBundle.Pattern

/-- The pattern matches exactly at the places that are `ok`, and takes `n` characters there. -/
structure Fits (p : Pattern) (n : Nat) (ok : Text → Prop) : Prop where
  hit : ∀ before t, ok t → ∃ d, p.matchAt? ⟨before, t⟩ = some d ∧ d.rest = t.drop n
  miss : ∀ before t, ¬ ok t → p.matchAt? ⟨before, t⟩ = none
  width : ∀ t, ok t → n ≤ t.length

/-! ## Rows of character sets -/

/-- The first characters of the text belong to the sets, one to each. -/
def Takes : List CharSet → Text → Prop
  | [], _ => True
  | _ :: _, [] => False
  | s :: sets, c :: t => s.holds c = true ∧ Takes sets t

theorem length_le_of_takes {sets : List CharSet} {t : Text} (h : Takes sets t) :
    sets.length ≤ t.length := by
  induction sets generalizing t with
  | nil => exact Nat.zero_le _
  | cons s sets ih =>
    cases t with
    | nil => exact absurd h id
    | cons c t => exact Nat.succ_le_succ (ih h.2)

theorem run_sequence_cons (p : Pattern) (ps : List Pattern) (c : Cursor) (k : Continuation) :
    (sequence (p :: ps)).run c k = p.run c fun d => (sequence ps).run d k := by
  cases ps <;> rfl

theorem run_row_of_takes {sets : List CharSet} {t : Text} (h : Takes sets t) (before : Option Char)
    (k : Continuation) :
    ∃ b, (sequence (sets.map .one)).run ⟨before, t⟩ k = k ⟨b, t.drop sets.length⟩ := by
  induction sets generalizing before t with
  | nil => exact ⟨before, rfl⟩
  | cons s sets ih =>
    cases t with
    | nil => exact absurd h id
    | cons c t =>
      obtain ⟨b, hb⟩ := ih h.2 (some c)
      refine ⟨b, ?_⟩
      rw [List.map_cons, run_sequence_cons]
      simp only [run, h.1, if_true]
      exact hb

theorem run_row_of_not_takes {sets : List CharSet} {t : Text} (h : ¬ Takes sets t)
    (before : Option Char) (k : Continuation) :
    (sequence (sets.map .one)).run ⟨before, t⟩ k = none := by
  induction sets generalizing before t with
  | nil => exact absurd trivial h
  | cons s sets ih =>
    rw [List.map_cons, run_sequence_cons]
    cases t with
    | nil => rfl
    | cons c t =>
      by_cases hc : s.holds c = true
      · simp only [run, hc, if_true]
        exact ih (fun ht => h ⟨hc, ht⟩) (some c)
      · simp only [run, hc, Bool.false_eq_true, if_false]

theorem fits_sequence (sets : List CharSet) :
    Fits (sequence (sets.map .one)) sets.length (Takes sets) where
  hit before t h := by
    obtain ⟨b, hb⟩ := run_row_of_takes h before some
    exact ⟨_, hb, rfl⟩
  miss before _ h := run_row_of_not_takes h before some
  width _ h := length_le_of_takes h

/-- The set of a single character. -/
def only (c : Char) : CharSet := ⟨false, [.single c]⟩

theorem takes_only_append {v : Text} {sets : List CharSet} {t : Text} :
    Takes (v.map only ++ sets) t ↔ ∃ rest, t = v ++ rest ∧ Takes sets rest := by
  induction v generalizing t with
  | nil => simp
  | cons c v ih =>
    cases t with
    | nil => simp [Takes]
    | cons d t =>
      have hd : (only c).holds d = true ↔ d = c := by
        simp [only, CharSet.holds, CharItem.holds]
      simp only [List.map_cons, List.cons_append, Takes, hd, ih, List.cons.injEq]
      constructor
      · rintro ⟨rfl, rest, rfl, h⟩
        exact ⟨rest, ⟨rfl, rfl⟩, h⟩
      · rintro ⟨rest, ⟨rfl, rfl⟩, h⟩
        exact ⟨rfl, rest, rfl, h⟩

theorem literal_eq_row (t : Text) : literal t = sequence ((t.map only).map .one) := by
  rw [List.map_map]
  rfl

/-! ## Search -/

variable {p : Pattern} {n : Nat} {ok : Text → Prop}

theorem searchRest?_cases (h : Fits p n ok) (before : Option Char) (t : Text) :
    (p.searchRest? before t = none ∧ ∀ a b, t = a ++ b → ¬ ok b) ∨
      ∃ a b, t = a ++ b ∧ ok b ∧ Text.FrontFree ok a b ∧
        p.searchRest? before t = some ⟨a.length, a.length + n⟩ := by
  induction t generalizing before with
  | nil =>
    by_cases hok : ok []
    · obtain ⟨d, hd, _⟩ := h.hit before [] hok
      have hn : n = 0 := Nat.le_zero.mp (h.width [] hok)
      exact Or.inr ⟨[], [], rfl, hok, Text.FrontFree.nil ok [], by simp [searchRest?, hd, hn]⟩
    · refine Or.inl ⟨by simp [searchRest?, h.miss before [] hok], ?_⟩
      intro a b hab
      rw [(List.append_eq_nil_iff.mp hab.symm).2]
      exact hok
  | cons c t ih =>
    by_cases hok : ok (c :: t)
    · obtain ⟨d, hd, hrest⟩ := h.hit before _ hok
      have hw := h.width _ hok
      refine Or.inr ⟨[], c :: t, rfl, hok, Text.FrontFree.nil ok _, ?_⟩
      have hlen : (c :: t).length - d.rest.length = n := by
        rw [hrest, List.length_drop]
        omega
      simp only [searchRest?, hd, hlen, List.length_nil, Nat.zero_add]
    · have hmiss := h.miss before _ hok
      rcases ih (some c) with ⟨hnone, hall⟩ | ⟨a, b, rfl, hb, hfree, hsome⟩
      · refine Or.inl ⟨by simp [searchRest?, hmiss, hnone], ?_⟩
        intro a b hab
        cases a with
        | nil => rw [← show c :: t = b from hab]; exact hok
        | cons d a => exact hall a b (List.cons.inj hab).2
      · refine Or.inr ⟨c :: a, b, rfl, hb, hfree.cons hok, ?_⟩
        simp only [searchRest?, hmiss, hsome, Option.map_some, Span.shift, List.length_cons]
        rw [Nat.add_right_comm]

/-- A search from the end of `l` finds the first place in what follows, if there is one. -/
theorem search?_cases (h : Fits p n ok) (l r : Text) :
    (p.search? (l ++ r) l.length = none ∧ ∀ a b, r = a ++ b → ¬ ok b) ∨
      ∃ a b, r = a ++ b ∧ ok b ∧ Text.FrontFree ok a b ∧
        p.search? (l ++ r) l.length = some ⟨l.length + a.length, l.length + a.length + n⟩ := by
  have hplace : min l.length (l ++ r).length = l.length := by
    rw [List.length_append]
    omega
  have hsearch : p.search? (l ++ r) l.length =
      (p.searchRest? l.getLast? r).map (Span.shift l.length) := by
    simp only [search?, hplace, List.take_left, List.drop_left]
  rw [hsearch]
  rcases searchRest?_cases h l.getLast? r with ⟨hnone, hall⟩ | ⟨a, b, hr, hb, hfree, hsome⟩
  · exact Or.inl ⟨by rw [hnone, Option.map_none], hall⟩
  · refine Or.inr ⟨a, b, hr, hb, hfree, ?_⟩
    rw [hsome]
    simp only [Option.map_some, Span.shift]
    congr 2 <;> omega

/-! ## Rows at the front -/

/-- A row of character sets that has to stand at the front of a text. -/
def frontRow (sets : List CharSet) : Pattern := sequence (.anchor .start :: sets.map .one)

theorem matchAt?_frontRow (sets : List CharSet) (before : Option Char) (t : Text) :
    (frontRow sets).matchAt? ⟨before, t⟩ =
      if before.isNone then (sequence (sets.map .one)).matchAt? ⟨before, t⟩ else none := by
  rw [matchAt?, frontRow, run_sequence_cons]
  rfl

theorem searchRest?_frontRow_some (sets : List CharSet) (x : Char) (t : Text) :
    (frontRow sets).searchRest? (some x) t = none := by
  induction t generalizing x with
  | nil => simp [searchRest?, matchAt?_frontRow]
  | cons c t ih => simp [searchRest?, matchAt?_frontRow, ih]

theorem search?_frontRow_zero (sets : List CharSet) (t : Text) (hs : sets ≠ []) :
    (Takes sets t ∧ (frontRow sets).search? t 0 = some ⟨0, sets.length⟩) ∨
      (¬ Takes sets t ∧ (frontRow sets).search? t 0 = none) := by
  have hsearch :
      (frontRow sets).search? t 0 = ((frontRow sets).searchRest? none t).map (Span.shift 0) := by
    simp [search?]
  have hfits := fits_sequence sets
  rw [hsearch]
  cases t with
  | nil =>
    have hn : ¬ Takes sets [] := by
      cases sets with
      | nil => exact absurd rfl hs
      | cons s sets => exact id
    exact Or.inr ⟨hn, by simp [searchRest?, matchAt?_frontRow, hfits.miss none [] hn]⟩
  | cons c t =>
    by_cases ht : Takes sets (c :: t)
    · obtain ⟨d, hd, hrest⟩ := hfits.hit none _ ht
      have hlen : (c :: t).length - d.rest.length = sets.length := by
        have := hfits.width _ ht
        rw [hrest, List.length_drop]
        omega
      refine Or.inl ⟨ht, ?_⟩
      simp only [searchRest?, matchAt?_frontRow, Option.isNone_none, if_true, hd, hlen]
      rfl
    · refine Or.inr ⟨ht, ?_⟩
      simp [searchRest?, matchAt?_frontRow, hfits.miss none _ ht, searchRest?_frontRow_some]

theorem search?_frontRow_succ (sets : List CharSet) (t : Text) (hs : sets ≠ []) (n : Nat) :
    (frontRow sets).search? t (n + 1) = none := by
  cases t with
  | nil =>
    rcases search?_frontRow_zero sets [] hs with ⟨ht, _⟩ | ⟨_, hnone⟩
    · exact absurd (length_le_of_takes ht) (by simpa using hs)
    · simpa [search?] using hnone
  | cons c t =>
    have hlast : ∀ u : Text, ∃ x, (c :: u).getLast? = some x :=
      fun u => ⟨_, List.getLast?_eq_some_getLast (by simp)⟩
    obtain ⟨x, hx⟩ := hlast (t.take (min n t.length))
    simp [search?, hx, searchRest?_frontRow_some]

/-! ## Patterns that stand for themselves -/

theorem takes_only_iff {piece t : Text} : Takes (piece.map only) t ↔ piece <+: t := by
  have h : Takes (piece.map only ++ []) t ↔ _ := takes_only_append
  simp only [List.append_nil, Takes, and_true] at h
  rw [h]
  exact ⟨fun ⟨r, hr⟩ => ⟨r, hr.symm⟩, fun ⟨r, hr⟩ => ⟨r, hr.symm⟩⟩

theorem fits_literal (piece : Text) : Fits (literal piece) piece.length (piece <+: ·) := by
  have hfits := fits_sequence (piece.map only)
  have htakes : Takes (piece.map only) = (piece <+: ·) := funext fun _ => propext takes_only_iff
  rwa [← literal_eq_row, htakes, List.length_map] at hfits

/-- A pattern that stands for itself matches somewhere exactly if its text occurs. -/
theorem occursIn_literal (piece t : Text) : (literal piece).occursIn t = true ↔ piece <:+: t := by
  unfold occursIn
  rcases search?_cases (fits_literal piece) [] t with ⟨hnone, hall⟩ | ⟨a, b, rfl, hb, _, hsome⟩
  · rw [show (literal piece).search? t 0 = none from hnone]
    constructor
    · intro h
      exact absurd h (by simp)
    · rintro ⟨a, b, rfl⟩
      exact absurd (List.prefix_append piece b) (hall a (piece ++ b) (by simp))
  · rw [show (literal piece).search? (a ++ b) 0 = some _ from hsome]
    constructor
    · intro _
      exact hb.isInfix.trans (List.suffix_append a b).isInfix
    · intro _
      rfl

end NlsBundle.Pattern
