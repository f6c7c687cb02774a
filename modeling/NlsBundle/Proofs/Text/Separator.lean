import Mathlib.Data.List.Infix
import NlsBundle.Text.Basic

/-!
# Separators

A piece of text that lacks a character cannot reach across it. Proved here, for every text:

* `occurrence_append_cons`: an occurrence lies on one side of a separator, and where;
* `prefix_of_prefix_append_cons`, `suffix_of_suffix_append_cons`: a front or an end stops at a
  separator;
* `infix_append_cons_iff`: a piece occurs exactly if it occurs on one of the two sides;
* `append_cons_inj`: the first separator divides a text in one way only;
* `occurrence_after_pieces`: an occurrence that is in none of the pieces between separators comes
  after them;
* `FrontFree`, `FrontFree.of_forall`: no place of some kind begins in the front of a text;
* `flatMap_eq_append_cons`: a character of a text that is put together from parts belongs to one of
  them;
* `flatMap_eq_append_occurrence`: and so does the first character of an occurrence;
* `part_unique`: no character belongs to two parts;
* `suffix_flatMap_of_barrier`, `prefix_flatMap_of_barrier`: words at the ends of a text do not
  notice changes behind separators.
-/

namespace NlsBundle.Text

variable {m : Char} {w x y : Text}

theorem occurrence_append_cons {a b : Text} (hm : m ∉ w) (h : x ++ m :: y = a ++ w ++ b) :
    (∃ b', x = a ++ w ++ b' ∧ b = b' ++ m :: y) ∨ ∃ a', a = x ++ m :: a' ∧ y = a' ++ w ++ b := by
  rcases List.append_eq_append_iff.mp h with ⟨z, hz, hy⟩ | ⟨b', hx, hb⟩
  · cases z with
    | nil => exact Or.inl ⟨[], by simpa using hz.symm, by simpa using hy.symm⟩
    | cons c z =>
      obtain ⟨rfl, rfl⟩ := List.cons.inj hy
      rcases List.append_eq_append_iff.mp hz with ⟨u, rfl, rfl⟩ | ⟨u, rfl, hu⟩
      · simp at hm
      · cases u with
        | nil =>
          rw [List.nil_append] at hu
          exact absurd (hu ▸ List.mem_cons_self) hm
        | cons d u =>
          obtain ⟨rfl, rfl⟩ := List.cons.inj hu
          exact Or.inr ⟨u, rfl, rfl⟩
  · exact Or.inl ⟨b', hx, hb⟩

theorem prefix_of_prefix_append_cons (hm : m ∉ w) (h : w <+: x ++ m :: y) : w <+: x := by
  obtain ⟨b, hb⟩ := h
  rcases occurrence_append_cons (a := []) hm hb.symm with ⟨b', rfl, _⟩ | ⟨a', ha, _⟩
  · exact ⟨b', rfl⟩
  · simp at ha

theorem suffix_of_suffix_append_cons (hm : m ∉ w) (h : w <:+ x ++ m :: y) : w <:+ y := by
  obtain ⟨a, ha⟩ := h
  rcases occurrence_append_cons (b := []) hm (by simpa using ha.symm) with
    ⟨b', _, hb⟩ | ⟨a', _, rfl⟩
  · simp at hb
  · exact ⟨a', by simp⟩

theorem infix_append_cons_iff (hm : m ∉ w) : w <:+: x ++ m :: y ↔ w <:+: x ∨ w <:+: y := by
  constructor
  · rintro ⟨a, b, h⟩
    rcases occurrence_append_cons hm h.symm with ⟨b', rfl, _⟩ | ⟨a', _, rfl⟩
    · exact Or.inl ⟨a, b', rfl⟩
    · exact Or.inr ⟨a', b, rfl⟩
  · rintro (h | h)
    · exact List.infix_append_of_infix_left h
    · exact List.infix_append_of_infix_right (List.infix_cons h)

theorem infix_cons_iff_of_notMem (hm : m ∉ w) (hw : w ≠ []) : w <:+: m :: y ↔ w <:+: y := by
  have h := infix_append_cons_iff (x := []) (y := y) hm
  simpa [hw] using h

/-- The first separator divides a text in one way only. -/
theorem append_cons_inj {x' y' : Text} (h : x ++ m :: y = x' ++ m :: y') (hx : m ∉ x)
    (hx' : m ∉ x') :
    x = x' ∧ y = y' := by
  rcases List.append_eq_append_iff.mp h with ⟨z, hz, hy⟩ | ⟨z, hz, hy⟩
  · cases z with
    | nil => exact ⟨by simpa using hz.symm, (List.cons.inj hy).2⟩
    | cons c z =>
      obtain ⟨rfl, _⟩ := List.cons.inj hy
      exact absurd (by simp [hz]) hx'
  · cases z with
    | nil => exact ⟨by simpa using hz, (List.cons.inj hy).2.symm⟩
    | cons c z =>
      obtain ⟨rfl, _⟩ := List.cons.inj hy
      exact absurd (by simp [hz]) hx

theorem last_eq {a b : Text} {c d : Char} (h : a ++ [c] = b ++ [d]) : c = d :=
  List.singleton_inj.mp (List.append_inj_right' h rfl)

/-- A last character that does not come from `w` comes from what follows `w`. -/
theorem exists_eq_concat {a l : Text} (hw : w ≠ []) (hm : m ∉ w) (h : l ++ (w ++ x) = a ++ [m]) :
    ∃ u, x = u ++ [m] := by
  rcases List.eq_nil_or_concat x with rfl | ⟨u, c, rfl⟩
  · obtain ⟨z, c, rfl⟩ := (List.eq_nil_or_concat w).resolve_left hw
    have hlast := congrArg List.getLast? h
    simp at hlast
    simp [hlast] at hm
  · have hlast := congrArg List.getLast? h
    simp at hlast
    exact ⟨u, by rw [hlast, List.concat_eq_append]⟩

/-- A word that lies in none of the pieces before a text lies in that text. -/
theorem occurrence_after_pieces {pieces : List (Text × Char)} {a b t : Text}
    (hm : ∀ p ∈ pieces, p.2 ∉ w) (hw : ∀ p ∈ pieces, ¬ w <:+: p.1)
    (h : (pieces.flatMap fun p => p.1 ++ [p.2]) ++ t = a ++ w ++ b) :
    ∃ u, a = (pieces.flatMap fun p => p.1 ++ [p.2]) ++ u ∧ t = u ++ w ++ b := by
  induction pieces generalizing a with
  | nil => exact ⟨a, rfl, h⟩
  | cons p pieces ih =>
    have hsplit : p.1 ++ p.2 :: ((pieces.flatMap fun p => p.1 ++ [p.2]) ++ t) = a ++ w ++ b := by
      rw [← h]
      simp
    rcases occurrence_append_cons (hm p List.mem_cons_self) hsplit with
      ⟨v, hp, _⟩ | ⟨a', rfl, hrest⟩
    · exact absurd ⟨_, _, hp.symm⟩ (hw p List.mem_cons_self)
    · obtain ⟨u, rfl, ht⟩ := ih (fun q hq => hm q (List.mem_cons_of_mem p hq))
        (fun q hq => hw q (List.mem_cons_of_mem p hq)) hrest
      exact ⟨u, by simp, ht⟩

/-! ## Occurrences -/

/-- To look at every occurrence of a piece is to look at every position of the text. -/
theorem forall_occurrence_iff {t q : Text} {P : Text → Text → Prop} :
    (∀ a b, t = a ++ q ++ b → P a b) ↔
      ∀ i ∈ List.range (t.length + 1), q <+: t.drop i → P (t.take i) (t.drop (i + q.length)) := by
  constructor
  · rintro h i _ ⟨b, hb⟩
    have hdrop : t.drop (i + q.length) = b := by
      rw [← List.drop_drop, ← hb, List.drop_left]
    rw [hdrop]
    exact h _ b (by rw [List.append_assoc, hb, List.take_append_drop])
  · rintro h a b rfl
    have hdrop : (a ++ q ++ b).drop (a.length + q.length) = b := by
      rw [← List.length_append, List.drop_left]
    have hrange : a.length ∈ List.range ((a ++ q ++ b).length + 1) := by
      simp only [List.mem_range, List.length_append]
      omega
    have hi := h a.length hrange (by simp)
    rw [hdrop] at hi
    simpa using hi

instance (t q : Text) (P : Text → Text → Prop) [∀ a b, Decidable (P a b)] :
    Decidable (∀ a b, t = a ++ q ++ b → P a b) :=
  decidable_of_iff _ forall_occurrence_iff.symm

/-! ## Fronts -/

/-- No place that is `ok` begins in `a` when `a` is followed by `r`. -/
def FrontFree (ok : Text → Prop) (a r : Text) : Prop :=
  ∀ a' b', a = a' ++ b' → b' ≠ [] → ¬ ok (b' ++ r)

theorem FrontFree.nil (ok : Text → Prop) (r : Text) : FrontFree ok [] r := by
  intro a' b' h hb
  exact absurd (List.append_eq_nil_iff.mp h.symm).2 hb

theorem FrontFree.cons {ok : Text → Prop} {c : Char} {a r : Text} (hc : ¬ ok (c :: (a ++ r)))
    (h : FrontFree ok a r) : FrontFree ok (c :: a) r := by
  intro a' b' hab hb
  cases a' with
  | nil => rw [← show c :: a = b' from hab]; exact hc
  | cons d a' => exact h a' b' (List.cons.inj hab).2 hb

theorem FrontFree.tail {ok : Text → Prop} {c : Char} {a r : Text} (h : FrontFree ok (c :: a) r) :
    FrontFree ok a r :=
  fun a' b' hab => h (c :: a') b' (by rw [hab, List.cons_append])

theorem FrontFree.of_forall {ok : Text → Prop} {a r : Text}
    (h : ∀ a' b', a ++ r = a' ++ b' → ¬ ok b') :
    FrontFree ok a r := by
  rintro a' b' rfl _
  exact h a' (b' ++ r) (by simp)

/-! ## Texts put together from parts -/

variable {σ : Type} {f : σ → Text} {segs : List σ}

/-- Every character of a text belongs to one of the parts it is put together from. -/
theorem flatMap_eq_append_cons {l r : Text} (h : segs.flatMap f = l ++ m :: r) :
    ∃ s₁ s s₂ u v, segs = s₁ ++ s :: s₂ ∧ f s = u ++ m :: v ∧
      l = s₁.flatMap f ++ u ∧ r = v ++ s₂.flatMap f := by
  induction segs generalizing l with
  | nil => simp at h
  | cons s segs ih =>
    rw [List.flatMap_cons] at h
    rcases List.append_eq_append_iff.mp h with ⟨z, rfl, hz⟩ | ⟨z, hs, hr⟩
    · obtain ⟨s₁, t, s₂, u, v, rfl, ht, rfl, rfl⟩ := ih hz
      exact ⟨s :: s₁, t, s₂, u, v, rfl, ht, by simp, rfl⟩
    · cases z with
      | nil =>
        obtain ⟨s₁, t, s₂, u, v, rfl, ht, hl, rfl⟩ := ih (l := []) (by simpa using hr.symm)
        exact ⟨s :: s₁, t, s₂, u, v, rfl, ht, by simp [hs, hl.symm], rfl⟩
      | cons c z =>
        obtain ⟨rfl, rfl⟩ := List.cons.inj hr
        exact ⟨[], s, segs, l, z, rfl, hs, by simp, rfl⟩

/-- Every occurrence begins in one of the parts. -/
theorem flatMap_eq_append_occurrence {a b : Text} (hw : w ≠ []) (h : segs.flatMap f = a ++ w ++ b) :
    ∃ s₁ s s₂ u v, segs = s₁ ++ s :: s₂ ∧ f s = u ++ v ∧ v ≠ [] ∧ a = s₁.flatMap f ++ u ∧
      v ++ s₂.flatMap f = w ++ b := by
  cases w with
  | nil => exact absurd rfl hw
  | cons c w =>
    have hc : segs.flatMap f = a ++ c :: (w ++ b) := by simpa using h
    obtain ⟨s₁, s, s₂, u, v, hsplit, hs, ha, hr⟩ := flatMap_eq_append_cons hc
    exact ⟨s₁, s, s₂, u, c :: v, hsplit, hs, List.cons_ne_nil c v,
      ha, by rw [List.cons_append, ← hr]; rfl⟩

/-- A place inside a part belongs to no other part. -/
theorem part_unique {s₁ s₂ t₁ t₂ : List σ} {s t : σ} {u v : Text}
    (h : s₁ ++ s :: s₂ = t₁ ++ t :: t₂) (hu : u.length < (f s).length)
    (hv : v.length < (f t).length) (hl : s₁.flatMap f ++ u = t₁.flatMap f ++ v) :
    s₁ = t₁ ∧ s = t ∧ s₂ = t₂ ∧ u = v := by
  have hlen := congrArg List.length hl
  simp only [List.length_append] at hlen
  rcases List.append_eq_append_iff.mp h with ⟨z, rfl, hz⟩ | ⟨z, rfl, hz⟩
  · cases z with
    | nil =>
      obtain ⟨rfl, rfl⟩ := List.cons.inj hz
      exact ⟨by simp, rfl, rfl, by simpa using hl⟩
    | cons c z =>
      obtain ⟨rfl, rfl⟩ := List.cons.inj hz
      simp only [List.flatMap_append, List.flatMap_cons, List.length_append] at hlen
      omega
  · cases z with
    | nil =>
      obtain ⟨rfl, rfl⟩ := List.cons.inj hz
      exact ⟨by simp, rfl, rfl, by simpa using hl⟩
    | cons c z =>
      obtain ⟨rfl, rfl⟩ := List.cons.inj hz
      simp only [List.flatMap_append, List.flatMap_cons, List.length_append] at hlen
      omega

/-- A word at the end of a text stays there when parts before it change, as long as each of these
ends in a separator or has one behind it. -/
theorem suffix_flatMap_of_barrier {g : σ → Text} {t : Text}
    (h : ∀ s₁ s s₂, segs = s₁ ++ s :: s₂ → f s = g s ∨ (∃ z c, c ∉ w ∧ f s = z ++ [c]) ∨
      ∃ c z, c ∉ w ∧ s₂.flatMap g ++ t = c :: z)
    (hw : w <:+ segs.flatMap f ++ t) : w <:+ segs.flatMap g ++ t := by
  induction segs using List.reverseRecOn generalizing t with
  | nil => exact hw
  | append_singleton segs s ih =>
    rw [List.flatMap_append, List.flatMap_singleton, List.append_assoc] at hw ⊢
    rcases h segs s [] rfl with hfg | ⟨z, c, hc, hf⟩ | ⟨c, z, hc, ht⟩
    · refine ih (fun s₁ s' s₂ hsplit => ?_) (hfg ▸ hw)
      simpa using h s₁ s' (s₂ ++ [s]) (by simp [hsplit])
    · have hz : segs.flatMap f ++ (f s ++ t) = (segs.flatMap f ++ z) ++ c :: t := by simp [hf]
      rw [hz] at hw
      rw [← List.append_assoc]
      exact (suffix_of_suffix_append_cons hc hw).trans (List.suffix_append _ t)
    · have ht : t = c :: z := ht
      rw [ht, ← List.append_assoc] at hw ⊢
      exact (suffix_of_suffix_append_cons hc hw).trans
        ((List.suffix_cons c z).trans (List.suffix_append _ _))

/-- A word at the front of a text stays there when parts after it change, as long as each of these
changes behind a separator or has one before it. -/
theorem prefix_flatMap_of_barrier {g : σ → Text} {t : Text}
    (h : ∀ s₁ s s₂, segs = s₁ ++ s :: s₂ → f s = g s ∨
      (∃ z c y y', c ∉ w ∧ f s = z ++ c :: y ∧ g s = z ++ y') ∨
      ∃ z c, c ∉ w ∧ t ++ s₁.flatMap g = z ++ [c])
    (hw : w <+: t ++ segs.flatMap f) : w <+: t ++ segs.flatMap g := by
  induction segs generalizing t with
  | nil => exact hw
  | cons s segs ih =>
    rw [List.flatMap_cons, ← List.append_assoc] at hw ⊢
    rcases h [] s segs rfl with hfg | ⟨z, c, y, y', hc, hf, hg⟩ | ⟨z, c, hc, ht⟩
    · refine ih (fun s₁ s' s₂ hsplit => ?_) (hfg ▸ hw)
      simpa using h (s :: s₁) s' s₂ (by simp [hsplit])
    · have hz : t ++ f s ++ segs.flatMap f = (t ++ z) ++ c :: (y ++ segs.flatMap f) := by simp [hf]
      rw [hz] at hw
      refine (prefix_of_prefix_append_cons hc hw).trans ⟨y' ++ segs.flatMap g, ?_⟩
      simp [hg]
    · have ht : t = z ++ [c] := by simpa using ht
      have hz : t ++ f s ++ segs.flatMap f = z ++ c :: (f s ++ segs.flatMap f) := by simp [ht]
      rw [hz] at hw
      refine (prefix_of_prefix_append_cons hc hw).trans ⟨c :: (g s ++ segs.flatMap g), ?_⟩
      simp [ht]

end NlsBundle.Text
