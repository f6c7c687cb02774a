import NlsBundle.Usage.Convert

/-!
# Reading plain texts as patterns

What the reader of patterns makes of the texts that patterns are put together from:

* `read_escapeChars`: a text in which the dot and the star are escaped is read as its characters,
  one by one;
* `parse_escapeChars`: on its own it is read as the pattern that stands for itself;
* `charSet_noDotNoQuote`, `charSet_noQuote`: the two character sets around a variable.
-/

namespace NlsBundle.Pattern

theorem read_nil (g : OpenGroup) : read g [] [] = .ok g.close := by
  rw [read.eq_def]
  simp

theorem read_of_mark?_eq_none {c : Char} (hc : mark? c = none) (g : OpenGroup)
    (outer : List OpenGroup) (t : Text) :
    read g outer (c :: t) = read (g.push (.char c)) outer t := by
  rw [read.eq_def]
  simp only [hc]

theorem read_start (g : OpenGroup) (outer : List OpenGroup) (t : Text) :
    read g outer ('^' :: t) = read (g.push (.anchor .start)) outer t := by
  rw [read.eq_def]
  simp only [mark?]

theorem read_backslash {c : Char} (hc : c = '.' ∨ c = '*') (g : OpenGroup) (outer : List OpenGroup)
    (t : Text) : read g outer ('\\' :: c :: t) = read (g.push (.char c)) outer t := by
  have he : escaped c t = .ok (.char c, 0) := by
    rcases hc with rfl | rfl <;> rfl
  rw [read.eq_def]
  simp only [mark?, he]
  rfl

theorem read_charSet {s : CharSet} {t u : Text} (h : charSet (t ++ u) = .ok (s, t.length))
    (g : OpenGroup) (outer : List OpenGroup) :
    read g outer ('[' :: (t ++ u)) = read (g.push (.one s)) outer u := by
  rw [read.eq_def]
  simp only [mark?, h]
  change read _ _ ((t ++ u).drop t.length) = _
  rw [List.drop_left]

/-! ## Escaped texts -/

/-- Every character is pushed as itself, whether it had to be escaped or not. -/
theorem read_escapeChars {special : List Char} (hs : ∀ c ∈ special, c = '.' ∨ c = '*') {t : Text}
    (ht : ∀ c ∈ t, c ∈ special ∨ mark? c = none) (g : OpenGroup) (outer : List OpenGroup)
    (u : Text) :
    read g outer (Usage.escapeChars special t ++ u) =
      read ⟨g.branches, (t.map char).reverse ++ g.items⟩ outer u := by
  induction t generalizing g with
  | nil => rfl
  | cons c t ih =>
    have hc : read g outer (Usage.escapeChars special (c :: t) ++ u) =
        read (g.push (.char c)) outer (Usage.escapeChars special t ++ u) := by
      by_cases hm : c ∈ special
      · simp only [Usage.escapeChars, List.flatMap_cons, hm, if_true, List.cons_append,
          List.nil_append]
        exact read_backslash (hs c hm) g outer _
      · simp only [Usage.escapeChars, List.flatMap_cons, hm, if_false, List.cons_append,
          List.nil_append]
        exact read_of_mark?_eq_none ((ht c List.mem_cons_self).resolve_left hm) g outer _
    rw [hc, ih fun d hd => ht d (List.mem_cons_of_mem c hd)]
    simp [OpenGroup.push]

/-- An escaped text is read as the pattern that stands for itself. -/
theorem parse_escapeChars {special : List Char} (hs : ∀ c ∈ special, c = '.' ∨ c = '*') {t : Text}
    (ht : ∀ c ∈ t, c ∈ special ∨ mark? c = none) :
    parse (Usage.escapeChars special t) = .ok (literal t) := by
  have h := read_escapeChars hs ht .start [] []
  rw [List.append_nil] at h
  rw [parse, h, read_nil]
  simp [OpenGroup.close, OpenGroup.nextBranch, OpenGroup.start, choice, literal]

/-- A text of characters without a meaning of their own needs no escapes. -/
theorem read_plain {t : Text} (ht : ∀ c ∈ t, mark? c = none) (g : OpenGroup)
    (outer : List OpenGroup) (u : Text) :
    read g outer (t ++ u) = read ⟨g.branches, (t.map char).reverse ++ g.items⟩ outer u := by
  have hp : Usage.escapeChars [] t = t := by simp [Usage.escapeChars]
  have h : read g outer (Usage.escapeChars [] t ++ u) = _ :=
    read_escapeChars (by simp) (fun c hc => Or.inr (ht c hc)) g outer u
  rwa [hp] at h

/-! ## Character sets -/

theorem setItems_close {found : List CharItem} (hf : found ≠ []) (t : Text) :
    setItems found (']' :: t) = .ok (found.reverse, 1) := by
  rw [setItems.eq_def]
  simp [hf]

theorem setItems_item {found items : List CharItem} {c x : Char} {t rest : Text} {a : CharItem}
    {n k : Nat} (hc : c ≠ ']') (ha : setItem c t = .ok (a, n)) (hr : t.drop n = x :: rest)
    (hx : x ≠ '-') (hk : setItems (a :: found) (x :: rest) = .ok (items, k)) :
    setItems found (c :: t) = .ok (items, n + k + 1) := by
  have hne : ∀ u : Text, t.drop n ≠ '-' :: u := by
    intro u hu
    rw [hr] at hu
    exact hx (List.cons.inj hu).1
  rw [setItems.eq_def]
  simp only [hc, false_and, if_false, ha]
  dsimp only [bind, Except.bind]
  split
  · exact absurd ‹_› (hne _)
  · exact absurd ‹_› (hne _)
  · exact absurd ‹_› (hne _)
  · rw [hr, hk]

/-- The set of all characters but the dot and the quote. -/
theorem charSet_noDotNoQuote (t : Text) :
    charSet ("^\\.\"]".toList ++ t) = .ok (⟨true, [.single '.', .single '"']⟩, 5) := by
  have h : setItems [] ('\\' :: '.' :: '"' :: ']' :: t) = .ok ([.single '.', .single '"'], 4) :=
    setItems_item (x := '"') (n := 1) (by decide) rfl rfl (by decide)
      (setItems_item (by decide) rfl rfl (by decide) (setItems_close (by simp) t))
  change (setItems [] ('\\' :: '.' :: '"' :: ']' :: t)).map _ = _
  rw [h]
  rfl

/-- The set of all characters but the quote. -/
theorem charSet_noQuote (t : Text) :
    charSet ("^\"]".toList ++ t) = .ok (⟨true, [.single '"']⟩, 3) := by
  have h : setItems [] ('"' :: ']' :: t) = .ok ([.single '"'], 2) :=
    setItems_item (by decide) rfl rfl (by decide) (setItems_close (by simp) t)
  change (setItems [] ('"' :: ']' :: t)).map _ = _
  rw [h]
  rfl

end NlsBundle.Pattern
