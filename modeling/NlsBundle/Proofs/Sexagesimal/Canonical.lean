import Mathlib.Data.Nat.Digits.Lemmas
import Mathlib.Data.Set.Function
import NlsBundle.Sexagesimal

/-!
# Numerals are canonical

Each number has one numeral and each numeral stands for one number. Proved here:

* `digitValue_digit`, `digit_digitValue`: a digit and its value determine each other;
* `significant_eq_digits`, `value_eq_ofDigits`: numerals are written and read with the digits of the
  number to base 60, of which the most significant comes first;
* `value_significant`, `significant_value`: so to write and to read undo each other, as long as
  there is no zero in front;
* `numeralOf_canonical`: the numerals of the natural numbers are zero and all texts of digits
  without a zero in front.
-/

namespace NlsBundle.Sexagesimal

/-! ## Digits -/

theorem length_digits : digits.length = 60 := by decide

theorem nodup_digits : digits.Nodup := by decide +kernel

theorem digit_zero : digit 0 = '0' := rfl

theorem digitValue_zero : digitValue '0' = 0 := rfl

theorem digit_eq_getElem {n : Nat} (h : n < digits.length) : digit n = digits[n] := by
  rw [digit, List.getD_eq_getElem?_getD, List.getElem?_eq_getElem h, Option.getD_some]

theorem digit_mem {n : Nat} (h : n < 60) : digit n ∈ digits := by
  rw [← length_digits] at h
  rw [digit_eq_getElem h]
  exact List.getElem_mem h

theorem digitValue_digit {n : Nat} (h : n < 60) : digitValue (digit n) = n := by
  rw [← length_digits] at h
  rw [digit_eq_getElem h, digitValue, nodup_digits.idxOf_getElem n h]

theorem digitValue_lt {c : Char} (h : c ∈ digits) : digitValue c < 60 := by
  rwa [← length_digits, digitValue, List.idxOf_lt_length_iff]

theorem digit_digitValue {c : Char} (h : c ∈ digits) : digit (digitValue c) = c := by
  have hlt := digitValue_lt h
  rw [← length_digits] at hlt
  rw [digit_eq_getElem hlt]
  exact List.getElem_idxOf hlt

theorem digitValue_eq_zero_iff {c : Char} (h : c ∈ digits) : digitValue c = 0 ↔ c = '0' := by
  constructor
  · intro hzero
    rw [← digit_digitValue h, hzero, digit_zero]
  · rintro rfl
    exact digitValue_zero

/-! ## Writing and reading -/

theorem significant_eq_digits (n : Nat) :
    significant n = ((Nat.digits 60 n).map digit).reverse := by
  induction n using significant.induct with
  | case1 => rw [significant, if_pos rfl, Nat.digits_zero, List.map_nil, List.reverse_nil]
  | case2 n hn ih =>
    rw [significant, if_neg hn, ih, Nat.digits_eq_cons_digits_div (by omega) hn, List.map_cons,
      List.reverse_cons]

theorem value_eq_ofDigits (t : Text) : value t = Nat.ofDigits 60 (t.reverse.map digitValue) := by
  induction t using List.reverseRecOn with
  | nil => rfl
  | append_singleton t c ih =>
    have hstep : value (t ++ [c]) = 60 * value t + digitValue c := by
      simp only [value, List.foldl_append, List.foldl_cons, List.foldl_nil]
    rw [hstep, ih, List.reverse_append, List.reverse_singleton, List.singleton_append,
      List.map_cons, Nat.ofDigits_cons, Nat.add_comm]

theorem value_significant (n : Nat) : value (significant n) = n := by
  have hdigits : ((Nat.digits 60 n).map digit).map digitValue = Nat.digits 60 n := by
    rw [List.map_map]
    refine (List.map_congr_left fun d hd => ?_).trans (List.map_id _)
    exact digitValue_digit (Nat.digits_lt_base (by omega) hd)
  rw [value_eq_ofDigits, significant_eq_digits, List.reverse_reverse, hdigits, Nat.ofDigits_digits]

theorem significant_value {t : Text} (ht : ∀ c ∈ t, c ∈ digits) (hzero : t.head? ≠ some '0') :
    significant (value t) = t := by
  have hvalues : Nat.digits 60 (Nat.ofDigits 60 (t.reverse.map digitValue)) =
      t.reverse.map digitValue := by
    refine Nat.digits_ofDigits 60 (by omega) _ ?_ ?_
    · intro d hd
      obtain ⟨c, hc, rfl⟩ := List.mem_map.mp hd
      exact digitValue_lt (ht c (List.mem_reverse.mp hc))
    · -- the last value is that of the first digit
      intro hne hlast
      cases t with
      | nil => exact hne rfl
      | cons c t =>
        have hfirst : digitValue c = 0 := by simpa using hlast
        rw [digitValue_eq_zero_iff (ht c List.mem_cons_self)] at hfirst
        exact hzero (by rw [hfirst, List.head?_cons])
  have hdigits : (t.reverse.map digitValue).map digit = t.reverse := by
    rw [List.map_map]
    refine (List.map_congr_left fun c hc => ?_).trans (List.map_id _)
    exact digit_digitValue (ht c (List.mem_reverse.mp hc))
  rw [significant_eq_digits, value_eq_ofDigits, hvalues, hdigits, List.reverse_reverse]

/-! ## Numerals -/

/-- A text of digits that is zero or has no zero in front. -/
structure IsNumeral (t : Text) : Prop where
  ne_nil : t ≠ []
  subset_digits : t ⊆ digits
  canonical : t = ['0'] ∨ t.head? ≠ some '0'

theorem isNumeral_significant {n : Nat} (hn : n ≠ 0) : IsNumeral (significant n) := by
  have hne : Nat.digits 60 n ≠ [] := Nat.digits_ne_nil_iff_ne_zero.mpr hn
  have hlt : ∀ d ∈ Nat.digits 60 n, d < 60 := fun d hd => Nat.digits_lt_base (by omega) hd
  rw [significant_eq_digits]
  refine ⟨by simpa using hne, ?_, Or.inr ?_⟩
  · intro c hc
    obtain ⟨d, hd, rfl⟩ := List.mem_map.mp (List.mem_reverse.mp hc)
    exact digit_mem (hlt d hd)
  · intro hzero
    rw [List.head?_reverse, List.getLast?_map, List.getLast?_eq_some_getLast hne,
      Option.map_some] at hzero
    have hlast := hlt _ (List.getLast_mem hne)
    apply Nat.getLast_digit_ne_zero 60 hn
    rw [← digitValue_digit hlast, Option.some_inj.mp hzero, digitValue_zero]

theorem isNumeral_numeral (n : Nat) : IsNumeral (numeral n) := by
  unfold numeral
  split
  · exact ⟨by decide, by decide, Or.inl rfl⟩
  · exact isNumeral_significant ‹_›

theorem value_zero : value ['0'] = 0 := by
  rw [value, List.foldl_cons, List.foldl_nil, digitValue_zero]

theorem value_numeral (n : Nat) : value (numeral n) = n := by
  unfold numeral
  split
  · subst n
    exact value_zero
  · exact value_significant n

theorem numeral_value {t : Text} (h : IsNumeral t) : numeral (value t) = t := by
  rcases h.canonical with rfl | hzero
  · rw [value_zero, numeral, if_pos rfl]
  · have hsignificant := significant_value (fun _ hc => h.subset_digits hc) hzero
    have hne : value t ≠ 0 := by
      intro hvalue
      rw [hvalue, significant, if_pos rfl] at hsignificant
      exact h.ne_nil hsignificant.symm
    rw [numeral, if_neg hne, hsignificant]

/-- **Numerals are canonical.** There are sixty different digits. The numeral of a natural number is
read as that number, and a text of digits that is zero or has no zero in front is the numeral of the
number it stands for. So numbers and such texts correspond to each other. -/
theorem numeralOf_canonical :
    (digits.length = 60 ∧ digits.Nodup) ∧
      (∀ n : Nat, value (numeralOf (some n)) = n) ∧
      (∀ t, IsNumeral t → numeralOf (some (value t)) = t) ∧
      Set.BijOn (fun n : Nat => numeralOf (some n)) Set.univ {t | IsNumeral t} := by
  refine ⟨⟨length_digits, nodup_digits⟩, value_numeral, fun t ht => numeral_value ht, ?_, ?_, ?_⟩
  · exact fun n _ => isNumeral_numeral n
  · exact (Function.LeftInverse.injective value_numeral).injOn
  · exact fun t ht => ⟨value t, Set.mem_univ _, numeral_value ht⟩

theorem numeralOf_canonical_three_digits :
    IsNumeral "z_0".toList ∧ value "z_0".toList = 214440 ∧
      numeralOf (some 214440) = "z_0".toList := by
  have hnumeral : IsNumeral "z_0".toList := ⟨by decide, by decide, Or.inr (by decide)⟩
  have hvalue : value "z_0".toList = 214440 := by decide
  refine ⟨hnumeral, hvalue, ?_⟩
  have hwritten := numeralOf_canonical.2.2.1 "z_0".toList hnumeral
  rwa [hvalue] at hwritten

end NlsBundle.Sexagesimal
