import NlsBundle.Proofs.Text.Separator
import NlsBundle.Text.Occurrence

/-!
# Replacement

How replacement of a piece goes through a text, from left to right:

* `replaceAll_append`: a front in which no occurrence begins is kept;
* `replaceAll_piece_append`: an occurrence at the front is replaced, and the rest is treated on its
  own;
* `replaceAll_of_not_infix`: a text without the piece is kept;
* `replaceAll_cases`: every text is of the second kind or, after a front of the first kind, of the
  third;
* `replaceAll_nil_eq_self_iff`: removal of a piece changes exactly the texts that have it;
* `replaceAll_append_cons`: the two sides of a character that the piece lacks are treated on their
  own;
* `replaceAll_flatMap`: where the occurrences are parts of a text, exactly these parts are replaced.
-/

namespace NlsBundle.Text

variable {piece new : Text}

theorem isSome_after?_iff {t : Text} : (after? piece t).isSome ↔ piece <+: t := by
  rw [Option.isSome_iff_ne_none, ne_eq, after?_eq_none_iff, not_not]

theorem replaceFrom_eq_drop (n : Nat) (t : Text) :
    replaceFrom piece new n t = replaceFrom piece new 0 (t.drop n) := by
  induction n generalizing t with
  | zero => rfl
  | succ n ih =>
    cases t with
    | nil => rfl
    | cons c t => exact ih t

theorem replaceAll_cons_of_not_prefix {c : Char} {t : Text} (hp : piece ≠ [])
    (h : ¬ piece <+: c :: t) :
    replaceAll (c :: t) piece new = c :: replaceAll t piece new := by
  rw [← isSome_after?_iff] at h
  simp [replaceAll, hp, replaceFrom, h]

theorem replaceAll_piece_append (hp : piece ≠ []) (t : Text) :
    replaceAll (piece ++ t) piece new = new ++ replaceAll t piece new := by
  cases piece with
  | nil => exact absurd rfl hp
  | cons p ps =>
    have hs : (after? (p :: ps) (p :: (ps ++ t))).isSome := isSome_after?_iff.mpr ⟨t, rfl⟩
    simp [replaceAll, replaceFrom, hs, replaceFrom_eq_drop ps.length]

theorem replaceAll_append (hp : piece ≠ []) {a r : Text} (h : FrontFree (piece <+: ·) a r) :
    replaceAll (a ++ r) piece new = a ++ replaceAll r piece new := by
  induction a with
  | nil => rfl
  | cons c a ih =>
    have hc : ¬ piece <+: c :: (a ++ r) := h [] (c :: a) rfl (by simp)
    rw [List.cons_append, replaceAll_cons_of_not_prefix hp hc, ih h.tail, List.cons_append]

theorem replaceAll_of_not_infix (hp : piece ≠ []) {t : Text} (h : ¬ piece <:+: t) :
    replaceAll t piece new = t := by
  have hf : FrontFree (piece <+: ·) t [] := by
    refine FrontFree.of_forall fun a' b' hab hb => h ?_
    rw [List.append_nil] at hab
    exact hab ▸ hb.isInfix.trans (List.suffix_append a' b').isInfix
  have ha : replaceAll (t ++ []) piece new = t ++ replaceAll [] piece new := replaceAll_append hp hf
  simpa [replaceAll, hp, replaceFrom] using ha

/-- The first occurrence, if there is one, is replaced and the rest treated on its own. -/
theorem replaceAll_cases (hp : piece ≠ []) (new t : Text) :
    (¬ piece <:+: t ∧ replaceAll t piece new = t) ∨
      ∃ a b, t = a ++ piece ++ b ∧ FrontFree (piece <+: ·) a (piece ++ b) ∧
        replaceAll t piece new = a ++ new ++ replaceAll b piece new := by
  cases hc : cut? piece t with
  | none =>
    have hn : ¬ piece <:+: t := by
      rw [← contains_iff]
      simp [contains, hc]
    exact Or.inl ⟨hn, replaceAll_of_not_infix hp hn⟩
  | some found =>
    obtain ⟨a, b⟩ := found
    have ht := eq_of_cut? hc
    have hf : FrontFree (piece <+: ·) a (piece ++ b) := by
      rintro a' b' rfl hb ⟨z, hz⟩
      have hle := length_le_of_cut? (a := a') (b := z) hc (by simp [ht, ← hz])
      have hpos : 0 < b'.length := List.length_pos_of_ne_nil hb
      rw [List.length_append] at hle
      omega
    refine Or.inr ⟨a, b, ht, hf, ?_⟩
    rw [ht, List.append_assoc, replaceAll_append hp hf, replaceAll_piece_append hp,
      List.append_assoc]

theorem mem_or_mem_of_mem_replaceAll {c : Char} (hp : piece ≠ []) {t : Text}
    (h : c ∈ replaceAll t piece new) :
    c ∈ t ∨ c ∈ new := by
  induction hn : t.length using Nat.strong_induction_on generalizing t with
  | _ n ih =>
    rcases replaceAll_cases hp new t with ⟨_, ht⟩ | ⟨a, b, rfl, _, ht⟩
    · exact Or.inl (ht ▸ h)
    · have hlen : b.length < n := by
        have hpos := List.length_pos_of_ne_nil hp
        simp only [List.length_append] at hn
        omega
      rw [ht] at h
      simp only [List.mem_append] at h ⊢
      rcases h with (h | h) | h
      · exact Or.inl (Or.inl (Or.inl h))
      · exact Or.inr h
      · exact (ih b.length hlen h rfl).imp_left Or.inr

theorem length_replaceAll_nil_le (hp : piece ≠ []) (t : Text) :
    (replaceAll t piece []).length ≤ t.length := by
  induction hn : t.length using Nat.strong_induction_on generalizing t with
  | _ n ih =>
    rcases replaceAll_cases hp [] t with ⟨_, ht⟩ | ⟨a, b, rfl, _, ht⟩
    · rw [ht, hn]
    · have hpos := List.length_pos_of_ne_nil hp
      simp only [List.length_append] at hn
      have hb := ih b.length (by omega) b rfl
      rw [ht]
      simp only [List.length_append, List.length_nil]
      omega

/-- Removal of a piece leaves a text as it is exactly if there is nothing to remove. -/
theorem replaceAll_nil_eq_self_iff (hp : piece ≠ []) {t : Text} :
    replaceAll t piece [] = t ↔ ¬ piece <:+: t := by
  constructor
  · rintro h ⟨a, b, hab⟩
    rcases replaceAll_cases hp [] t with ⟨hnot, _⟩ | ⟨x, y, rfl, _, ht⟩
    · exact hnot ⟨a, b, hab⟩
    · have hpos := List.length_pos_of_ne_nil hp
      have hy := length_replaceAll_nil_le hp y
      have hlen := congrArg List.length (h.symm.trans ht)
      simp only [List.length_append, List.length_nil] at hlen
      omega
  · exact fun h => replaceAll_of_not_infix hp h

/-- No occurrence reaches across a character that the piece lacks. -/
theorem FrontFree.append_cons {c : Char} {a r : Text} (hc : c ∉ piece)
    (h : FrontFree (piece <+: ·) a r) (b : Text) :
    FrontFree (piece <+: ·) a (r ++ c :: b) := by
  intro a' b' hab hb hfront
  rw [← List.append_assoc] at hfront
  exact h a' b' hab hb (prefix_of_prefix_append_cons hc hfront)

theorem replaceAll_append_cons (hp : piece ≠ []) {c : Char} (hc : c ∉ piece) (a b : Text) :
    replaceAll (a ++ c :: b) piece new = replaceAll a piece new ++ c :: replaceAll b piece new := by
  induction hn : a.length using Nat.strong_induction_on generalizing a with
  | _ n ih =>
    rcases replaceAll_cases hp new a with ⟨hnot, ha⟩ | ⟨x, y, rfl, hfree, ha⟩
    · have hfree : FrontFree (piece <+: ·) a ([] ++ c :: b) := by
        refine FrontFree.append_cons hc ?_ b
        rintro a' b' rfl _ hfront
        rw [List.append_nil] at hfront
        exact hnot (hfront.isInfix.trans (List.suffix_append a' b').isInfix)
      have hhead : ¬ piece <+: c :: b := fun hfront =>
        hp (List.prefix_nil.mp (prefix_of_prefix_append_cons (x := []) hc hfront))
      rw [List.nil_append] at hfree
      rw [ha, replaceAll_append hp hfree, replaceAll_cons_of_not_prefix hp hhead]
    · -- the rest after the first occurrence is shorter
      have hlen : y.length < n := by
        have hpos := List.length_pos_of_ne_nil hp
        simp only [List.length_append] at hn
        omega
      have hsplit : x ++ piece ++ y ++ c :: b = x ++ (piece ++ (y ++ c :: b)) := by simp
      have hfree' : FrontFree (piece <+: ·) x (piece ++ (y ++ c :: b)) := by
        rw [← List.append_assoc]
        exact hfree.append_cons hc b
      rw [ha, hsplit, replaceAll_append hp hfree', replaceAll_piece_append hp,
        ih y.length hlen y rfl]
      simp

/-! ## Replacing parts -/

variable {σ : Type} {f : σ → Text} {marked : σ → Prop} [DecidablePred marked]

/-- Where every occurrence of a piece is a marked part and every marked part is an occurrence,
replacement puts the new text in place of the marked parts and keeps the others. -/
theorem replaceAll_flatMap (hp : piece ≠ []) {segs : List σ}
    (hm : ∀ s ∈ segs, marked s → f s = piece)
    (hocc : ∀ a b, segs.flatMap f = a ++ piece ++ b →
      ∃ s₁ s s₂, segs = s₁ ++ s :: s₂ ∧ marked s ∧ a = s₁.flatMap f) :
    replaceAll (segs.flatMap f) piece new =
      segs.flatMap fun s => if marked s then new else f s := by
  induction segs with
  | nil => simp [replaceAll, hp, replaceFrom]
  | cons s segs ih =>
    have htail := ih (fun t ht => hm t (List.mem_cons_of_mem s ht)) (by
      intro a b hab
      obtain ⟨s₁, t, s₂, hsplit, ht, ha⟩ := hocc (f s ++ a) b (by simp [hab])
      cases s₁ with
      | nil =>
        obtain ⟨rfl, rfl⟩ := List.cons.inj hsplit
        have hnil : f s = [] := (List.append_eq_nil_iff.mp ha).1
        exact absurd ((hm s List.mem_cons_self ht).symm.trans hnil) hp
      | cons s' s₁ =>
        obtain ⟨rfl, rfl⟩ := List.cons.inj hsplit
        exact ⟨s₁, t, s₂, rfl, ht, by simpa using ha⟩)
    rw [List.flatMap_cons, List.flatMap_cons, ← htail]
    by_cases hs : marked s
    · rw [if_pos hs, hm s List.mem_cons_self hs, replaceAll_piece_append hp]
    · rw [if_neg hs]
      refine replaceAll_append hp ?_
      -- an occurrence that begins inside an unmarked part would have to be a part itself
      rintro a' b' hab hb ⟨z, hz⟩
      obtain ⟨s₁, t, s₂, hsplit, ht, ha⟩ := hocc a' z (by simp [hab, ← hz])
      cases s₁ with
      | nil =>
        obtain ⟨rfl, rfl⟩ := List.cons.inj hsplit
        exact hs ht
      | cons s' s₁ =>
        obtain ⟨rfl, rfl⟩ := List.cons.inj hsplit
        have hlen := congrArg List.length ha
        simp only [List.flatMap_cons, hab, List.length_append] at hlen
        have hpos : 0 < b'.length := List.length_pos_of_ne_nil hb
        omega

end NlsBundle.Text
