import NlsBundle.Proofs.Pattern.Search

/-!
# Searching for pieces with gaps between them

A pattern can be made of pieces that stand for themselves, with any characters of a line between
them. Proved here:

* `inOrder_cons_iff_of_cut?`: whether pieces occur in order can be found out from left to right;
* `inOrder_append_iff`: the end of a text makes no difference to pieces that have none of its
  characters;
* `run_literal_eq_some`, `run_anyRun_eq_some`: what a match of a text, and of any run of characters,
  takes up;
* `inOrder_of_occursIn_gapped`: so where such a pattern matches, its pieces occur in order;
* `isSome_manyGreedy`: among the runs of characters that are tried is every one within the line;
* `occursIn_gapped_iff`: so such a pattern matches in a line exactly if its pieces occur there in
  order.
-/

namespace NlsBundle

namespace Text

/-! ## Pieces in order -/

/-- The pieces occur in the text in this order, each after the end of the one before. -/
def InOrder : List Text → Text → Prop
  | [], _ => True
  | piece :: pieces, t => ∃ a b, t = a ++ piece ++ b ∧ InOrder pieces b

variable {piece t x e : Text} {pieces : List Text}

theorem InOrder.of_suffix {u : Text} (h : InOrder pieces u) (hu : u <:+ t) : InOrder pieces t := by
  cases pieces with
  | nil => exact trivial
  | cons piece pieces =>
    obtain ⟨a, b, rfl, hb⟩ := h
    obtain ⟨front, rfl⟩ := hu
    exact ⟨front ++ a, b, by simp, hb⟩

theorem InOrder.infix_of_mem (h : InOrder pieces t) (hpiece : piece ∈ pieces) : piece <:+: t := by
  induction pieces generalizing t with
  | nil => cases hpiece
  | cons first pieces ih =>
    obtain ⟨a, b, rfl, hb⟩ := h
    rcases List.mem_cons.mp hpiece with rfl | hpiece
    · exact ⟨a, b, rfl⟩
    · exact List.infix_append_of_infix_right (ih hb hpiece)

/-- It is enough to look at the first occurrence of the first piece. -/
theorem inOrder_cons_iff_of_cut? {before rest : Text} (h : cut? piece t = some (before, rest)) :
    InOrder (piece :: pieces) t ↔ InOrder pieces rest := by
  have ht := eq_of_cut? h
  refine ⟨?_, fun hrest => ⟨before, rest, ht, hrest⟩⟩
  rintro ⟨a, b, hab, hb⟩
  have hle := length_le_of_cut? h hab
  have hlen := congrArg List.length (ht.symm.trans hab)
  simp only [List.length_append] at hlen
  have hrest : rest <:+ t := ⟨before ++ piece, ht.symm⟩
  exact hb.of_suffix (List.suffix_of_suffix_length_le ⟨a ++ piece, hab.symm⟩ hrest (by omega))

theorem not_inOrder_cons_of_cut? (h : cut? piece t = none) : ¬ InOrder (piece :: pieces) t := by
  rintro ⟨a, b, rfl, _⟩
  obtain ⟨_, _, hcut, _⟩ := exists_cut? piece a b
  rw [h] at hcut
  cases hcut

instance decidableInOrder : ∀ (pieces : List Text) (t : Text), Decidable (InOrder pieces t)
  | [], _ => isTrue trivial
  | piece :: pieces, t =>
    match h : cut? piece t with
    | none => isFalse (not_inOrder_cons_of_cut? h)
    | some (_, rest) =>
        @decidable_of_iff' _ _ (inOrder_cons_iff_of_cut? h) (decidableInOrder pieces rest)

theorem inOrder_append_iff (h : ∀ piece ∈ pieces, piece ≠ [] ∧ ∀ c ∈ piece, c ∉ e) :
    InOrder pieces (x ++ e) ↔ InOrder pieces x := by
  induction pieces generalizing x with
  | nil => exact Iff.rfl
  | cons piece pieces ih =>
    obtain ⟨⟨hne, hpiece⟩, hpieces⟩ := List.forall_mem_cons.mp h
    constructor
    · rintro ⟨a, b, hab, hb⟩
      rcases List.append_eq_append_iff.mp hab with ⟨z, hz, rfl⟩ | ⟨z, rfl, rfl⟩
      · rcases List.eq_nil_or_concat z with rfl | ⟨z', c, rfl⟩
        · have hrest : InOrder pieces ([] ++ b) := hb
          exact ⟨a, [], by simpa using hz.symm, (ih hpieces).mp hrest⟩
        · -- the piece would end with one of the characters behind
          obtain ⟨front, d, rfl⟩ := (List.eq_nil_or_concat piece).resolve_left hne
          have hlast : d = c := last_eq (a := a ++ front) (b := x ++ z') (by simpa using hz)
          exact absurd (by simp [hlast]) (hpiece d (by simp))
      · exact ⟨a, z, rfl, (ih hpieces).mp hb⟩
    · rintro ⟨a, b, rfl, hb⟩
      exact ⟨a, b ++ e, by simp, (ih hpieces).mpr hb⟩

end Text

namespace Pattern

open Text

/-! ## What a match takes up -/

theorem run_literal_eq_some {piece : Text} {ps : List Pattern} {c e : Cursor} {k : Continuation}
    (h : (sequence (literal piece :: ps)).run c k = some e) :
    ∃ d, c.rest = piece ++ d.rest ∧ (sequence ps).run d k = some e := by
  rw [run_sequence_cons, literal_eq_row] at h
  by_cases htakes : Takes (piece.map only) c.rest
  · obtain ⟨b, hb⟩ := run_row_of_takes htakes c.before fun d => (sequence ps).run d k
    have hsplit : Takes (piece.map only ++ []) c.rest ↔ _ := takes_only_append
    rw [List.append_nil] at hsplit
    obtain ⟨rest, hrest, _⟩ := hsplit.mp htakes
    rw [List.length_map, hrest, List.drop_left] at hb
    refine ⟨⟨b, rest⟩, hrest, ?_⟩
    rw [← hb, ← hrest]
    exact h
  · rw [run_row_of_not_takes htakes c.before] at h
    cases h

theorem manyGreedy_eq_some {fuel : Nat} {c e : Cursor} {k : Continuation}
    (h : manyGreedy anyButLineFeed.run fuel none c k = some e) :
    ∃ taken d, c.rest = taken ++ d.rest ∧ k d = some e := by
  induction fuel generalizing c with
  | zero => exact ⟨[], c, rfl, h⟩
  | succ fuel ih =>
    obtain ⟨before, text⟩ := c
    -- either one more character is taken, or the rest of the work starts here
    have hstep : k ⟨before, text⟩ = some e ∨ ∃ x rest, text = x :: rest ∧
        manyGreedy anyButLineFeed.run fuel none ⟨some x, rest⟩ k = some e := by
      cases text with
      | nil => exact Or.inl (by simpa [manyGreedy, mayRepeat, anyButLineFeed, run] using h)
      | cons x rest =>
        by_cases hx : CharSet.holds ⟨true, [.single '\n']⟩ x = true
        · have hshorter : ¬ rest.length = rest.length + 1 := by omega
          simp only [manyGreedy, mayRepeat, anyButLineFeed, run, hx, if_true, List.length_cons,
            hshorter, if_false, Option.map_none, Option.orElse_eq_orElse, Option.orElse_eq_or,
            Option.or_eq_some_iff] at h
          rcases h with h | ⟨_, h⟩
          · exact Or.inr ⟨x, rest, rfl, h⟩
          · exact Or.inl h
        · exact Or.inl (by simpa [manyGreedy, mayRepeat, anyButLineFeed, run, hx] using h)
    rcases hstep with hhere | ⟨x, rest, rfl, hmore⟩
    · exact ⟨[], _, rfl, hhere⟩
    · obtain ⟨taken, d, hrest, hd⟩ := ih hmore
      exact ⟨x :: taken, d, congrArg (x :: ·) hrest, hd⟩

theorem run_anyRun_eq_some {ps : List Pattern} {c e : Cursor} {k : Continuation}
    (h : (sequence (anyRun :: ps)).run c k = some e) :
    ∃ taken d, c.rest = taken ++ d.rest ∧ (sequence ps).run d k = some e := by
  rw [run_sequence_cons] at h
  exact manyGreedy_eq_some h

/-- A pattern that occurs in a text matches at some place of it. -/
theorem exists_of_searchRest? {p : Pattern} {before : Option Char} {t : Text} {span : Span}
    (h : p.searchRest? before t = some span) :
    ∃ a b before' e, t = a ++ b ∧ p.matchAt? ⟨before', b⟩ = some e := by
  induction t generalizing before span with
  | nil =>
    obtain ⟨e, he, _⟩ := Option.map_eq_some_iff.mp h
    exact ⟨[], [], before, e, rfl, he⟩
  | cons x t ih =>
    rw [searchRest?] at h
    cases hmatch : p.matchAt? ⟨before, x :: t⟩ with
    | some e => exact ⟨[], x :: t, before, e, rfl, hmatch⟩
    | none =>
      rw [hmatch] at h
      obtain ⟨span', hspan, _⟩ := Option.map_eq_some_iff.mp h
      obtain ⟨a, b, before', e, rfl, he⟩ := ih hspan
      exact ⟨x :: a, b, before', e, rfl, he⟩

theorem exists_of_occursIn {p : Pattern} {t : Text} (h : p.occursIn t = true) :
    ∃ a b before e, t = a ++ b ∧ p.matchAt? ⟨before, b⟩ = some e := by
  obtain ⟨span, hspan⟩ := Option.isSome_iff_exists.mp h
  obtain ⟨span', hspan', _⟩ := Option.map_eq_some_iff.mp hspan
  exact exists_of_searchRest? (by simpa using hspan')

/-! ## Pieces with gaps between them -/

variable {k : Continuation}

/-- The pieces in this order, with any characters of a line between them. -/
def gapped : List Text → List Pattern
  | [] => []
  | [piece] => [literal piece]
  | piece :: next :: pieces => literal piece :: anyRun :: gapped (next :: pieces)

theorem inOrder_of_run_gapped {pieces : List Text} {piece : Text} {c e : Cursor}
    (h : (sequence (gapped (piece :: pieces))).run c k = some e) :
    ∃ rest, c.rest = piece ++ rest ∧ InOrder pieces rest := by
  induction pieces generalizing piece c with
  | nil =>
    obtain ⟨d, hd, _⟩ := run_literal_eq_some h
    exact ⟨d.rest, hd, trivial⟩
  | cons next pieces ih =>
    obtain ⟨d, hd, h⟩ := run_literal_eq_some h
    obtain ⟨taken, d', hd', h⟩ := run_anyRun_eq_some h
    obtain ⟨rest, hrest, hin⟩ := ih h
    exact ⟨d.rest, hd, taken, rest, by rw [hd', hrest, List.append_assoc], hin⟩

theorem inOrder_of_occursIn_gapped {piece t : Text} {pieces : List Text}
    (h : (sequence (gapped (piece :: pieces))).occursIn t = true) :
    InOrder (piece :: pieces) t := by
  obtain ⟨a, b, _, _, rfl, hmatch⟩ := exists_of_occursIn h
  obtain ⟨rest, rfl, hin⟩ := inOrder_of_run_gapped hmatch
  exact ⟨a, rest, (List.append_assoc a piece rest).symm, hin⟩

theorem isSome_run_literal {piece rest : Text} {ps : List Pattern} (before : Option Char)
    (h : ∀ before, ((sequence ps).run ⟨before, rest⟩ k).isSome = true) :
    ((sequence (literal piece :: ps)).run ⟨before, piece ++ rest⟩ k).isSome = true := by
  have htakes : Takes (piece.map only ++ []) (piece ++ rest) :=
    takes_only_append.mpr ⟨rest, rfl, trivial⟩
  rw [List.append_nil] at htakes
  obtain ⟨b, hb⟩ := run_row_of_takes htakes before fun d => (sequence ps).run d k
  rw [run_sequence_cons, literal_eq_row, hb, List.length_map, List.drop_left]
  exact h b

/-- Of all numbers of characters that are tried, one is that of the characters to be taken. -/
theorem isSome_manyGreedy {taken rest : Text} {fuel : Nat} (before : Option Char)
    (hfeed : '\n' ∉ taken) (hfuel : taken.length ≤ fuel)
    (h : ∀ before, (k ⟨before, rest⟩).isSome = true) :
    (manyGreedy anyButLineFeed.run fuel none ⟨before, taken ++ rest⟩ k).isSome = true := by
  induction taken generalizing fuel before with
  | nil =>
    cases fuel with
    | zero => exact h before
    | succ fuel => simp [manyGreedy, Option.isSome_or, h before]
  | cons x taken ih =>
    obtain ⟨hx, hfeed⟩ : '\n' ≠ x ∧ '\n' ∉ taken := by simpa using hfeed
    cases fuel with
    | zero => simp at hfuel
    | succ fuel =>
      have hholds : CharSet.holds ⟨true, [.single '\n']⟩ x = true := by
        simp [CharSet.holds, CharItem.holds, hx.symm]
      have hmore := ih (some x) hfeed (Nat.le_of_succ_le_succ hfuel)
      have hshorter : ¬ (taken ++ rest).length = (x :: (taken ++ rest)).length := by simp
      simp only [manyGreedy, mayRepeat, anyButLineFeed, run, hholds, if_true, List.cons_append,
        if_neg hshorter, Option.orElse_eq_orElse, Option.orElse_eq_or, Option.isSome_or,
        Bool.or_eq_true]
      exact Or.inl hmore

theorem isSome_run_anyRun {taken rest : Text} {ps : List Pattern} (before : Option Char)
    (hfeed : '\n' ∉ taken) (h : ∀ before, ((sequence ps).run ⟨before, rest⟩ k).isSome = true) :
    ((sequence (anyRun :: ps)).run ⟨before, taken ++ rest⟩ k).isSome = true := by
  rw [run_sequence_cons]
  exact isSome_manyGreedy before hfeed (by simp) h

theorem isSome_run_gapped {pieces : List Text} {piece x : Text} (before : Option Char) (e : Text)
    (hfeed : '\n' ∉ x) (hin : InOrder pieces x) (hk : ∀ d, (k d).isSome = true) :
    ((sequence (gapped (piece :: pieces))).run ⟨before, piece ++ (x ++ e)⟩ k).isSome = true := by
  induction pieces generalizing piece x before with
  | nil => exact isSome_run_literal before fun _ => hk _
  | cons next pieces ih =>
    obtain ⟨a, b, rfl, hb⟩ := hin
    simp only [List.mem_append, not_or] at hfeed
    refine isSome_run_literal before fun before' => ?_
    rw [List.append_assoc a, List.append_assoc a, List.append_assoc next]
    exact isSome_run_anyRun before' hfeed.1.1 fun before'' => ih before'' hfeed.2 hb

theorem isSome_searchRest? {p : Pattern} {b : Text}
    (h : ∀ before, (p.matchAt? ⟨before, b⟩).isSome = true) (a : Text) (before : Option Char) :
    (p.searchRest? before (a ++ b)).isSome = true := by
  induction a generalizing before with
  | nil =>
    obtain ⟨d, hd⟩ := Option.isSome_iff_exists.mp (h before)
    cases b with
    | nil => simp [searchRest?, hd]
    | cons y b => simp [searchRest?, hd]
  | cons y a ih =>
    rw [List.cons_append, searchRest?]
    split
    · rfl
    · rw [Option.isSome_map, ih]

/-- Pieces with gaps between them match somewhere in a line exactly if they occur in order before
its end. -/
theorem occursIn_gapped_iff {piece x e : Text} {pieces : List Text} (hfeed : '\n' ∉ x)
    (h : ∀ p ∈ piece :: pieces, p ≠ [] ∧ ∀ c ∈ p, c ∉ e) :
    (sequence (gapped (piece :: pieces))).occursIn (x ++ e) = true ↔
      InOrder (piece :: pieces) x := by
  refine ⟨fun hoccurs => (inOrder_append_iff h).mp (inOrder_of_occursIn_gapped hoccurs), ?_⟩
  rintro ⟨a, b, rfl, hb⟩
  simp only [List.mem_append, not_or] at hfeed
  have hsearch := isSome_searchRest? (p := sequence (gapped (piece :: pieces)))
    (fun before => isSome_run_gapped before e hfeed.2 hb fun _ => rfl) a none
  simpa [occursIn, search?] using hsearch

end Pattern

end NlsBundle
