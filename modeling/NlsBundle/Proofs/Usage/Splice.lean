import Mathlib.Algebra.Group.Int.Units
import Mathlib.Tactic.Linarith
import NlsBundle.Proofs.Name
import NlsBundle.Proofs.Usage.Scan

/-!
# What splicing replaces

The pass over a text puts calls in place of occurrences of a variable, and so does the look at the
front, but that takes a character with it. Proved here:

* `exists_pieces`: the pass cuts a text at occurrences of the variable, and the call has no say in
  where;
* `spliceVariable_single_pass`: so splicing comes to its end after one pass and one look at the
  front, for every call;
* `Swapped.length_eq`: a text in which only occurrences have been swapped has a length that tells
  their number;
* `Swapped.not_swapped_front`: so a character that is lost at the front is lost for good;
* `spliceVariable_swapped_iff`: nothing but occurrences is replaced exactly if the look at the front
  finds nothing;
* `spliceVariable_drops_front`: a variable after the first character of a text takes that character
  with it.
-/

namespace NlsBundle.Usage

open Text

variable {v call t u rest : Text}

/-! ## Pieces -/

theorem join_cons_head (separator : Text) (c : Char) (piece : Text) (pieces : List Text) :
    join separator ((c :: piece) :: pieces) = c :: join separator (piece :: pieces) := by
  cases pieces <;> rfl

/-- The pieces between the uses that the pass finds. Calls are only put between them, so they are
never read. -/
theorem exists_pieces (v t : Text) :
    ∃ pieces, pieces ≠ [] ∧ t = join v pieces ∧ ∀ call, scan v call t = join call pieces := by
  induction t using scan.induct v with
  | case1 => exact ⟨[[]], by simp, rfl, fun call => scan_nil⟩
  | case2 c t rest huse ih =>
    obtain ⟨pieces, hne, hrest, hscan⟩ := ih
    obtain ⟨piece, pieces, rfl⟩ := List.exists_cons_of_ne_nil hne
    obtain ⟨_, _, rfl, _⟩ := afterUse?_eq_some_iff.mp huse
    refine ⟨[c] :: piece :: pieces, by simp, ?_, fun call => ?_⟩
    · rw [join_cons_cons, ← hrest]
      simp
    · rw [scan_cons, huse, join_cons_cons, ← hscan]
      simp
  | case3 c t huse ih =>
    obtain ⟨pieces, hne, ht, hscan⟩ := ih
    obtain ⟨piece, pieces, rfl⟩ := List.exists_cons_of_ne_nil hne
    refine ⟨(c :: piece) :: pieces, by simp, ?_, fun call => ?_⟩
    · rw [join_cons_head, ← ht]
    · rw [scan_cons, huse, join_cons_head, ← hscan]

/-! ## One pass -/

/-- The characters that have a meaning of their own in patterns. -/
def metacharacters : List Char :=
  ['.', '^', '$', '*', '+', '?', '{', '}', '[', ']', '\\', '|', '(', ')']

theorem mem_metacharacters_of_mark? {c : Char} {m : Pattern.Mark} (h : Pattern.mark? c = some m) :
    c ∈ metacharacters := by
  unfold Pattern.mark? at h
  split at h
  case h_13 => cases h
  all_goals decide

theorem mark?_eq_none_of_notMem (h : ∀ c ∈ v, c ∉ metacharacters) :
    ∀ c ∈ v, Pattern.mark? c = none := by
  intro c hc
  cases hm : Pattern.mark? c with
  | none => rfl
  | some m => exact absurd (mem_metacharacters_of_mark? hm) (h c hc)

/-- **Splicing is a single pass from left to right, and it always ends.** For a variable without
metacharacters, the first loop has done the pass after at most one round for each character of the
text, and the second one has looked at the front after two rounds, whatever the text. The pass cuts
the text into pieces at occurrences of the variable. These pieces are the same for all calls, so no
call is looked at again, even if the variable occurs in it. -/
theorem spliceVariable_single_pass (hv : ∀ c ∈ v, c ∉ metacharacters) (t : Text) :
    ∃ inner front pieces, pattern (innerUse v) = .ok inner ∧ pattern (frontUse v) = .ok front ∧
      pieces ≠ [] ∧ t = join v pieces ∧
      ∀ call, spliceVariable t v call = .ok (replaceFront v call (scan v call t)) ∧
        scan v call t = join call pieces ∧
        (∀ rounds, t.length < rounds → spliceInner inner v call rounds t 0 = some (scan v call t)) ∧
        ∀ u rounds, 1 < rounds →
          spliceFront front v call rounds u 0 = some (replaceFront v call u) := by
  have hmark := mark?_eq_none_of_notMem hv
  obtain ⟨pieces, hne, ht, hscan⟩ := exists_pieces v t
  refine ⟨_, _, pieces, pattern_innerUse hmark, pattern_frontUse hmark, hne, ht, fun call => ?_⟩
  refine ⟨spliceVariable_eq hmark t call, hscan call, ?_, ?_⟩
  · intro rounds hrounds
    exact spliceInner_eq (l := []) (fits_innerUse v) hrounds
  · intro u rounds hrounds
    exact spliceFront_eq u hrounds

/-- Two uses share a comma. The call has the variable twice: the pass does not read it, but the look
at the front does. -/
theorem spliceVariable_single_pass_shared :
    (∀ c ∈ ['b'], c ∉ metacharacters) ∧
      scan ['b'] ['b', 'b'] ",b,b;".toList = ",bb,bb;".toList ∧
      spliceVariable ",b,b;".toList ['b'] ['b', 'b'] = .ok "bbb,bb;".toList := by
  have hv : ∀ c ∈ ['b'], c ∉ metacharacters := by simp [metacharacters]
  obtain ⟨_, _, _, _, _, _, _, h⟩ := spliceVariable_single_pass hv ",b,b;".toList
  refine ⟨hv, by decide +kernel, ?_⟩
  rw [(h ['b', 'b']).1]
  decide +kernel

/-! ## Swapping occurrences -/

/-- The second text is the first one with calls in place of some occurrences of the variable. -/
def Swapped (v call t u : Text) : Prop :=
  ∃ pieces, pieces ≠ [] ∧ t = join v pieces ∧ u = join call pieces

/-- The text has the variable after its first character, which is no quote. -/
def FrontHit (v t : Text) : Prop := ∃ c rest, t = c :: (v ++ rest) ∧ c ≠ '"'

theorem swapped_refl (v call t : Text) : Swapped v call t t := ⟨[t], by simp, rfl, rfl⟩

theorem swapped_scan (v call t : Text) : Swapped v call t (scan v call t) := by
  obtain ⟨pieces, hne, ht, hscan⟩ := exists_pieces v t
  exact ⟨pieces, hne, ht, hscan call⟩

theorem length_join (separator : Text) {pieces : List Text} (h : pieces ≠ []) :
    (join separator pieces).length + separator.length =
      pieces.flatten.length + pieces.length * separator.length := by
  induction pieces with
  | nil => exact absurd rfl h
  | cons piece pieces ih =>
    cases pieces with
    | nil => simp [join]
    | cons next pieces =>
      have hrest := ih (by simp)
      have hcount : (piece :: next :: pieces).length = (next :: pieces).length + 1 :=
        List.length_cons
      rw [join_cons_cons, List.flatten_cons, hcount, Nat.succ_mul]
      simp only [List.length_append]
      omega

/-- Each swap changes the length by the same amount. -/
theorem Swapped.length_eq (h : Swapped v call t u) :
    ∃ swaps : ℤ, (u.length : ℤ) = t.length + swaps * (call.length - v.length) := by
  obtain ⟨pieces, hne, rfl, rfl⟩ := h
  have hv := congrArg (Nat.cast (R := ℤ)) (length_join v hne)
  have hcall := congrArg (Nat.cast (R := ℤ)) (length_join call hne)
  push_cast at hv hcall
  exact ⟨pieces.length - 1, by linarith⟩

/-- What the look at the front leaves is one character short of a swap. That makes it no swap,
unless the call and the variable differ in length by just one character. -/
theorem Swapped.not_swapped_front {c : Char} (h : Swapped v call t (c :: (v ++ rest)))
    (hlong : call.length ≠ v.length + 1) (hshort : call.length + 1 ≠ v.length) :
    ¬ Swapped v call t (call ++ rest) := by
  intro hfront
  obtain ⟨before, hbefore⟩ := h.length_eq
  obtain ⟨after, hafter⟩ := hfront.length_eq
  simp only [List.length_cons, List.length_append, Nat.cast_add, Nat.cast_one] at hbefore hafter
  have hone : (before + 1 - after) * ((call.length : ℤ) - v.length) = 1 := by linarith
  rcases Int.eq_one_or_neg_one_of_mul_eq_one hone with hd | hd <;> rw [hd] at hone <;> omega

/-- **Nothing but the variable is replaced, except at the front.** The pass only swaps occurrences
of the variable for the call. If the text that it leaves has the variable after its first character,
be it in what was there or in a call, and that character is no quote, then this character is lost
together with the variable. Unless the call is by just one character longer or shorter than the
variable, such a loss cannot be taken for a swap of other occurrences: so splicing only swaps
occurrences exactly if the look at the front finds nothing. -/
theorem spliceVariable_swapped_iff (hv : IsName v) (t call : Text) :
    ∃ u, spliceVariable t v call = .ok u ∧
      Swapped v call t (scan v call t) ∧
      (¬ FrontHit v (scan v call t) → u = scan v call t) ∧
      (∀ c rest, scan v call t = c :: (v ++ rest) → c ≠ '"' → u = call ++ rest) ∧
      (call.length ≠ v.length + 1 → call.length + 1 ≠ v.length →
        (Swapped v call t u ↔ ¬ FrontHit v (scan v call t))) := by
  have hself : ¬ FrontHit v (scan v call t) →
      replaceFront v call (scan v call t) = scan v call t := by
    intro hfront
    refine replaceFront_eq_self fun c rest hscan => ?_
    by_contra hc
    exact hfront ⟨c, rest, hscan, hc⟩
  refine ⟨_, spliceVariable_eq hv.mark?_eq_none t call, swapped_scan v call t, hself, ?_, ?_⟩
  · intro c rest hscan hc
    rw [hscan, replaceFront_of_eq hc]
  · intro hlong hshort
    constructor
    · rintro hswapped ⟨c, rest, hscan, hc⟩
      have hpass := swapped_scan v call t
      rw [hscan] at hpass
      rw [hscan, replaceFront_of_eq hc] at hswapped
      exact hpass.not_swapped_front hlong hshort hswapped
    · intro hfront
      rw [hself hfront]
      exact swapped_scan v call t

theorem spliceVariable_swapped_iff_brackets :
    IsName "FOO".toList ∧
      ∃ u, spliceVariable "(FOO,FOO)".toList "FOO".toList "M.getString(\"FOO\")".toList = .ok u ∧
        Swapped "FOO".toList "M.getString(\"FOO\")".toList "(FOO,FOO)".toList u := by
  have hname : IsName "FOO".toList := by decide
  obtain ⟨u, hok, _, _, _, hiff⟩ :=
    spliceVariable_swapped_iff hname "(FOO,FOO)".toList "M.getString(\"FOO\")".toList
  refine ⟨hname, u, hok, (hiff (by decide) (by decide)).mpr ?_⟩
  have hscan : scan "FOO".toList "M.getString(\"FOO\")".toList "(FOO,FOO)".toList =
      "(M.getString(\"FOO\"),M.getString(\"FOO\"))".toList := by decide +kernel
  rw [hscan]
  rintro ⟨c, rest, heq, _⟩
  simp at heq

/-- At the end of a text the pass finds no use, and the look at the front takes the blank before the
variable. -/
theorem spliceVariable_drops_front :
    spliceVariable " FOO".toList "FOO".toList "M.getString(\"FOO\")".toList =
      .ok "M.getString(\"FOO\")".toList ∧
      ¬ Swapped "FOO".toList "M.getString(\"FOO\")".toList " FOO".toList
        "M.getString(\"FOO\")".toList := by
  refine ⟨by decide +kernel, ?_⟩
  have h :
      Swapped "FOO".toList "M.getString(\"FOO\")".toList " FOO".toList
        (' ' :: ("FOO".toList ++ [])) :=
    swapped_refl _ _ _
  simpa using h.not_swapped_front (by decide) (by decide)

end NlsBundle.Usage
