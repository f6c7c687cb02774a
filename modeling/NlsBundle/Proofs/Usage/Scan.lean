import NlsBundle.Proofs.Pattern.Reading
import NlsBundle.Proofs.Pattern.Search

/-!
# Splicing in one pass

For a variable whose characters have no meaning of their own in a pattern, splicing its call into a
text is a single pass from left to right, followed by a look at the front of the text:

* `scan` is that pass and `replaceFront` that look;
* `spliceVariable_eq`: the search loop always comes to its end, and gives just this;
* `scan_append`, `scan_use`: how the pass goes on over a front without uses, and over a use;
* `scan_cases`: every text is without uses, or has a first one after such a front;
* `MarkedUses`, `scan_flatMap`: where the uses are parts of a text, exactly these parts are
  replaced.
-/

namespace NlsBundle.Usage

/-! ## The pass -/

/-- What follows a use of the variable that has `c` on its left, from its right neighbour on. -/
def afterUse? (v : Text) (c : Char) (t : Text) : Option Text :=
  if c = '.' ∨ c = '"' then none
  else match Text.after? v t with
    | some (d :: rest) => if d = '"' then none else some (d :: rest)
    | _ => none

theorem afterUse?_eq_some_iff {v t rest : Text} {c : Char} :
    afterUse? v c t = some rest ↔
      c ≠ '.' ∧ c ≠ '"' ∧ t = v ++ rest ∧ ∃ d r, rest = d :: r ∧ d ≠ '"' := by
  unfold afterUse?
  by_cases hc : c = '.' ∨ c = '"'
  · simp only [hc, if_true, reduceCtorEq, false_iff]
    rintro ⟨h₁, h₂, _⟩
    exact hc.elim h₁ h₂
  · rw [if_neg hc]
    rw [not_or] at hc
    cases ha : Text.after? v t with
    | none =>
      simp only [reduceCtorEq, false_iff]
      rintro ⟨_, _, rfl, _⟩
      simp at ha
    | some u =>
      have ht := Text.after?_eq_some_iff.mp ha
      cases u with
      | nil =>
        simp only [reduceCtorEq, false_iff]
        rintro ⟨_, _, h, d, r, rfl, _⟩
        simp [ht] at h
      | cons d u =>
        by_cases hd : d = '"'
        · simp only [hd, if_true, reduceCtorEq, false_iff]
          rintro ⟨_, _, h, d', r, rfl, hd'⟩
          rw [ht, List.append_cancel_left_eq, hd] at h
          exact hd' (List.cons.inj h).1.symm
        · simp only [hd, if_false, Option.some.injEq]
          constructor
          · rintro rfl
            exact ⟨hc.1, hc.2, ht, d, u, rfl, hd⟩
          · rintro ⟨_, _, h, _⟩
            rwa [ht, List.append_cancel_left_eq] at h

theorem length_afterUse?_lt {v t rest : Text} {c : Char} (h : afterUse? v c t = some rest) :
    rest.length < (c :: t).length := by
  obtain ⟨_, _, rfl, _⟩ := afterUse?_eq_some_iff.mp h
  simp only [List.length_cons, List.length_append]
  omega

/-- Puts the call in place of each use, from left to right. The right neighbour of a use is still to
be read: it can be the left neighbour of the next one. -/
def scan (v call : Text) : Text → Text
  | [] => []
  | c :: t =>
    match _h : afterUse? v c t with
    | some rest => c :: call ++ scan v call rest
    | none => c :: scan v call t
termination_by t => t.length
decreasing_by
  · exact length_afterUse?_lt _h
  · simp

/-- Puts the call in place of a variable after the first character, together with that character. -/
def replaceFront (v call : Text) : Text → Text
  | [] => []
  | c :: t =>
    match Text.after? v t with
    | some rest => if c = '"' then c :: t else call ++ rest
    | none => c :: t

/-- A text begins with a use of the variable and the two neighbours of that use. -/
def UseAt (v t : Text) : Prop :=
  ∃ c d rest, t = c :: (v ++ d :: rest) ∧ c ≠ '.' ∧ c ≠ '"' ∧ d ≠ '"'

variable {v call : Text}

theorem scan_nil : scan v call [] = [] := by
  rw [scan]

theorem scan_cons (c : Char) (t : Text) :
    scan v call (c :: t) = match afterUse? v c t with
      | some rest => c :: call ++ scan v call rest
      | none => c :: scan v call t := by
  rw [scan]
  split <;> rename_i h <;> rw [h]

theorem scan_use {c d : Char} (hdot : c ≠ '.') (hquote : c ≠ '"') (hd : d ≠ '"') (rest : Text) :
    scan v call (c :: (v ++ d :: rest)) = c :: (call ++ scan v call (d :: rest)) := by
  have h : afterUse? v c (v ++ d :: rest) = some (d :: rest) :=
    afterUse?_eq_some_iff.mpr ⟨hdot, hquote, rfl, d, rest, rfl, hd⟩
  rw [scan_cons, h]
  rfl

theorem scan_cons_of_not_useAt {c : Char} {t : Text} (h : ¬ UseAt v (c :: t)) :
    scan v call (c :: t) = c :: scan v call t := by
  have hnone : afterUse? v c t = none := by
    rw [Option.eq_none_iff_forall_ne_some]
    intro rest hrest
    obtain ⟨h₁, h₂, rfl, d, r, rfl, hd⟩ := afterUse?_eq_some_iff.mp hrest
    exact h ⟨c, d, r, rfl, h₁, h₂, hd⟩
  rw [scan_cons, hnone]

theorem scan_append {a r : Text} (h : Text.FrontFree (UseAt v) a r) :
    scan v call (a ++ r) = a ++ scan v call r := by
  induction a with
  | nil => rfl
  | cons c a ih =>
    have hc : ¬ UseAt v (c :: (a ++ r)) := h [] (c :: a) rfl (by simp)
    rw [List.cons_append, scan_cons_of_not_useAt hc, ih h.tail, List.cons_append]

theorem scan_eq_self {t : Text} (h : ∀ a b, t = a ++ b → ¬ UseAt v b) : scan v call t = t := by
  have ha : scan v call (t ++ []) = t ++ scan v call [] :=
    scan_append (Text.FrontFree.of_forall (by simpa using h))
  simpa [scan_nil] using ha

/-- The first use, if there is one, is replaced and what follows it is scanned on its own. -/
theorem scan_cases (v call t : Text) :
    ((∀ a b, t = a ++ b → ¬ UseAt v b) ∧ scan v call t = t) ∨
      ∃ a c d rest, t = a ++ c :: (v ++ d :: rest) ∧
        Text.FrontFree (UseAt v) a (c :: (v ++ d :: rest)) ∧
        scan v call t = a ++ c :: (call ++ scan v call (d :: rest)) := by
  by_cases hnone : ∀ a b, t = a ++ b → ¬ UseAt v b
  · exact Or.inl ⟨hnone, scan_eq_self hnone⟩
  · refine Or.inr ?_
    induction t with
    | nil =>
      refine absurd (fun a b hab => ?_) hnone
      obtain ⟨_, rfl⟩ := List.append_eq_nil_iff.mp hab.symm
      rintro ⟨c, d, rest, h, _⟩
      cases h
    | cons c t ih =>
      by_cases hc : UseAt v (c :: t)
      · obtain ⟨c', d, rest, heq, hdot, hquote, hd⟩ := hc
        rw [heq]
        exact ⟨[], c', d, rest, rfl, Text.FrontFree.nil _ _, scan_use hdot hquote hd rest⟩
      · have hrest : ¬ ∀ a b, t = a ++ b → ¬ UseAt v b := by
          refine fun hrest => hnone fun a b hab => ?_
          cases a with
          | nil => rw [← show c :: t = b from hab]; exact hc
          | cons e a => exact hrest a b (List.cons.inj hab).2
        obtain ⟨a, c', d, rest, rfl, hfree, hscan⟩ := ih hrest
        exact ⟨c :: a, c', d, rest, rfl,
          hfree.cons hc, by rw [scan_cons_of_not_useAt hc, hscan]; rfl⟩

/-! ## Replacing parts -/

/-- The uses in a text are just the marked ones of its parts. The text `l` before the parts is what
the pass has not left yet: its last character can be the left neighbour of the first part. -/
structure MarkedUses {σ : Type} (v : Text) (f : σ → Text) (marked : σ → Prop) (l : Text)
    (parts : List σ) : Prop where
  text_eq : ∀ p ∈ parts, marked p → f p = v
  occurrence : ∀ a c d b, l ++ parts.flatMap f = a ++ c :: (v ++ d :: b) →
    c ≠ '.' → c ≠ '"' → d ≠ '"' →
    ∃ before p after, parts = before ++ p :: after ∧ marked p ∧ a ++ [c] = l ++ before.flatMap f
  left : ∀ before p after, parts = before ++ p :: after → marked p →
    ∃ a c, l ++ before.flatMap f = a ++ [c] ∧ c ∉ v ∧ c ≠ '.' ∧ c ≠ '"'
  right : ∀ before p after, parts = before ++ p :: after → marked p →
    ∃ d b, after.flatMap f = d :: b ∧ d ≠ '"'

section

variable {σ : Type} {f : σ → Text} {marked : σ → Prop} {l : Text} {p : σ} {parts : List σ}

/-- A part that is no use goes to the text before. -/
theorem MarkedUses.skip (h : MarkedUses v f marked l (p :: parts)) (hp : ¬ marked p) :
    MarkedUses v f marked (l ++ f p) parts where
  text_eq q hq := h.text_eq q (List.mem_cons_of_mem p hq)
  occurrence := by
    intro a c d b hab hdot hquote hd
    obtain ⟨before, q, after, hsplit, hq, ha⟩ :=
      h.occurrence a c d b (by simpa using hab) hdot hquote hd
    cases before with
    | nil =>
      obtain ⟨rfl, rfl⟩ := List.cons.inj hsplit
      exact absurd hq hp
    | cons p' before =>
      obtain ⟨rfl, rfl⟩ := List.cons.inj hsplit
      exact ⟨before, q, after, rfl, hq, by simpa using ha⟩
  left := by
    intro before q after hsplit hq
    simpa using h.left (p :: before) q after (by rw [hsplit]; rfl) hq
  right := by
    intro before q after hsplit hq
    exact h.right (p :: before) q after (by rw [hsplit]; rfl) hq

/-- After a use the pass begins anew. -/
theorem MarkedUses.leave (hv : v ≠ []) (h : MarkedUses v f marked l (p :: parts)) (hp : marked p) :
    MarkedUses v f marked [] parts where
  text_eq q hq := h.text_eq q (List.mem_cons_of_mem p hq)
  occurrence := by
    intro a c d b hab hdot hquote hd
    have hfp := h.text_eq p List.mem_cons_self hp
    have htext : l ++ (p :: parts).flatMap f = (l ++ v ++ a) ++ c :: (v ++ d :: b) := by
      rw [List.flatMap_cons, hfp, List.append_assoc, List.append_assoc, ← hab]
      rfl
    obtain ⟨before, q, after, hsplit, hq, ha⟩ :=
      h.occurrence (l ++ v ++ a) c d b htext hdot hquote hd
    cases before with
    | nil =>
      have hlen := congrArg List.length ha
      simp at hlen
    | cons p' before =>
      obtain ⟨rfl, rfl⟩ := List.cons.inj hsplit
      exact ⟨before, q, after, rfl, hq, by simpa [hfp] using ha⟩
  left := by
    intro before q after hsplit hq
    obtain ⟨a, c, ha, hcv, hdot, hquote⟩ := h.left (p :: before) q after (by rw [hsplit]; rfl) hq
    -- the left neighbour is no character of the variable, so it does not come from the part before
    have hfp := h.text_eq p List.mem_cons_self hp
    obtain ⟨u, hu⟩ := Text.exists_eq_concat hv hcv (by simpa [hfp] using ha)
    exact ⟨u, c, by rw [List.nil_append, hu], hcv, hdot, hquote⟩
  right := by
    intro before q after hsplit hq
    exact h.right (p :: before) q after (by rw [hsplit]; rfl) hq

/-- The pass reaches the first part if that is a use, and puts the call in its place. -/
theorem MarkedUses.scan_cons (h : MarkedUses v f marked l (p :: parts)) (hp : marked p) :
    scan v call (l ++ (p :: parts).flatMap f) = l ++ (call ++ scan v call (parts.flatMap f)) := by
  obtain ⟨a, c, hl, _, hdot, hquote⟩ := h.left [] p parts rfl hp
  obtain ⟨d, b, hb, hd⟩ := h.right [] p parts rfl hp
  have hla : l = a ++ [c] := by simpa using hl
  have htext : l ++ (p :: parts).flatMap f = a ++ c :: (v ++ d :: b) := by
    simp [hla, h.text_eq p List.mem_cons_self hp, hb]
  have hfree : Text.FrontFree (UseAt v) a (c :: (v ++ d :: b)) := by
    rintro a' b' rfl hb' ⟨c', d', rest, heq, hdot', hquote', hd'⟩
    obtain ⟨before, q, after, _, _, ha⟩ :=
      h.occurrence a' c' d' rest (by rw [htext, List.append_assoc, heq]) hdot' hquote' hd'
    have hlen := congrArg List.length ha
    have hpos : 0 < b'.length := List.length_pos_of_ne_nil hb'
    simp only [hla, List.length_append, List.length_cons, List.length_nil] at hlen
    omega
  rw [htext, scan_append hfree, scan_use hdot hquote hd, ← hb, hla]
  simp

end

/-- Where the uses are just the marked parts, the pass puts the call in their place and keeps the
others. -/
theorem scan_flatMap {σ : Type} {f : σ → Text} {marked : σ → Prop} [DecidablePred marked]
    (hv : v ≠ []) {l : Text} {parts : List σ} (h : MarkedUses v f marked l parts) :
    scan v call (l ++ parts.flatMap f) =
      l ++ parts.flatMap fun p => if marked p then call else f p := by
  induction parts generalizing l with
  | nil =>
    refine scan_eq_self ?_
    rintro a _ hab ⟨c, d, rest, rfl, hdot, hquote, hd⟩
    obtain ⟨before, p, after, hsplit, _⟩ := h.occurrence a c d rest hab hdot hquote hd
    simp at hsplit
  | cons p parts ih =>
    by_cases hp : marked p
    · have htail := ih (h.leave hv hp)
      rw [List.nil_append, List.nil_append] at htail
      rw [h.scan_cons hp, htail]
      simp [hp]
    · simpa [hp, List.append_assoc] using ih (h.skip hp)

/-! ## The patterns of uses -/

/-- The characters that cannot stand to the right of a use. -/
def noQuote : CharSet := ⟨true, [.single '"']⟩

/-- The characters that cannot stand to the left of a use. -/
def noDotNoQuote : CharSet := ⟨true, [.single '.', .single '"']⟩

theorem pattern_innerUse (hv : ∀ c ∈ v, Pattern.mark? c = none) :
    pattern (innerUse v) = .ok (.sequence
      ((noDotNoQuote :: (v.map Pattern.only ++ [noQuote])).map .one)) := by
  have h : Pattern.parse (innerUse v) = .ok (.sequence
      ((noDotNoQuote :: (v.map Pattern.only ++ [noQuote])).map .one)) := by
    change Pattern.read .start [] ('[' :: ("^\\.\"]".toList ++ v ++ "[^\"]".toList)) = _
    rw [List.append_assoc, Pattern.read_charSet (Pattern.charSet_noDotNoQuote _),
      Pattern.read_plain hv]
    change Pattern.read _ [] ('[' :: ("^\"]".toList ++ [])) = _
    rw [Pattern.read_charSet (Pattern.charSet_noQuote _), Pattern.read_nil]
    simp [Pattern.OpenGroup.close, Pattern.OpenGroup.nextBranch, Pattern.OpenGroup.push,
      Pattern.OpenGroup.start, Pattern.choice, noDotNoQuote, noQuote]
    rfl
  rw [pattern, h]
  rfl

theorem pattern_frontUse (hv : ∀ c ∈ v, Pattern.mark? c = none) :
    pattern (frontUse v) = .ok (.sequence
      (.anchor .start :: (noQuote :: v.map Pattern.only).map .one)) := by
  have h : Pattern.parse (frontUse v) = .ok (.sequence
      (.anchor .start :: (noQuote :: v.map Pattern.only).map .one)) := by
    change Pattern.read .start [] ('^' :: '[' :: ("^\"]".toList ++ v)) = _
    have hp := Pattern.read_plain hv
    rw [Pattern.read_start, Pattern.read_charSet (Pattern.charSet_noQuote _), ← List.append_nil v,
      hp, Pattern.read_nil, List.append_nil]
    simp [Pattern.OpenGroup.close, Pattern.OpenGroup.nextBranch, Pattern.OpenGroup.push,
      Pattern.OpenGroup.start, Pattern.choice, noQuote]
    rfl
  rw [pattern, h]
  rfl

theorem fits_innerUse (v : Text) :
    Pattern.Fits (.sequence ((noDotNoQuote :: (v.map Pattern.only ++ [noQuote])).map .one))
      (v.length + 2)
      (UseAt v) := by
  have hok : Pattern.Takes (noDotNoQuote :: (v.map Pattern.only ++ [noQuote])) = UseAt v := by
    funext t
    apply propext
    cases t with
    | nil => simp [Pattern.Takes, UseAt]
    | cons c t =>
      have hc : noDotNoQuote.holds c = true ↔ c ≠ '.' ∧ c ≠ '"' := by
        simp [noDotNoQuote, CharSet.holds, CharItem.holds]
      rw [Pattern.Takes, hc, Pattern.takes_only_append]
      constructor
      · rintro ⟨⟨h₁, h₂⟩, rest, rfl, hrest⟩
        cases rest with
        | nil => exact absurd hrest id
        | cons d rest =>
          have hd : d ≠ '"' := by simpa [noQuote, CharSet.holds, CharItem.holds] using hrest.1
          exact ⟨c, d, rest, rfl, h₁, h₂, hd⟩
      · rintro ⟨c', d, rest, heq, h₁, h₂, hd⟩
        obtain ⟨rfl, rfl⟩ := List.cons.inj heq
        refine ⟨⟨h₁, h₂⟩, d :: rest, rfl, ?_, trivial⟩
        simpa [noQuote, CharSet.holds, CharItem.holds] using hd
  have h := Pattern.fits_sequence (noDotNoQuote :: (v.map Pattern.only ++ [noQuote]))
  rw [hok] at h
  simpa using h

/-! ## The loops -/

theorem fromBefore_append (l : Text) (d : Char) (r : Text) :
    fromBefore (l ++ d :: r) (l.length + 1) = d :: r := by
  simp [fromBefore]

/-- The loop goes on behind what it has put in, so it needs at most one round for each character. -/
theorem spliceInner_eq {p : Pattern} (hp : p.Fits (v.length + 2) (UseAt v)) {rounds : Nat}
    {l r : Text} (hr : r.length < rounds) :
    spliceInner p v call rounds (l ++ r) l.length = some (l ++ scan v call r) := by
  induction rounds generalizing l r with
  | zero => omega
  | succ rounds ih =>
    rcases Pattern.search?_cases hp l r with ⟨hnone, hall⟩ | ⟨a, b, rfl, hb, hfree, hsome⟩
    · rw [spliceInner, hnone, scan_eq_self hall]
    · obtain ⟨c, d, rest, rfl, h₁, h₂, hd⟩ := hb
      have hlt : l.length + a.length < (l ++ (a ++ c :: (v ++ d :: rest))).length := by
        simp
      have htake : (l ++ (a ++ c :: (v ++ d :: rest))).take (l.length + a.length + 1) =
          l ++ a ++ [c] := by
        rw [show l ++ (a ++ c :: (v ++ d :: rest)) = (l ++ a ++ [c]) ++ (v ++ d :: rest) by simp]
        exact List.take_left' (by simp; omega)
      have hdrop :
          fromBefore (l ++ (a ++ c :: (v ++ d :: rest))) (l.length + a.length + (v.length + 2)) =
          d :: rest := by
        have hstop : l.length + a.length + (v.length + 2) = (l ++ a ++ c :: v).length + 1 := by
          simp
          omega
        rw [hstop, show l ++ (a ++ c :: (v ++ d :: rest)) = (l ++ a ++ c :: v) ++ d :: rest by simp,
          fromBefore_append]
      have hpos : l.length + a.length + (v.length + 2) + call.length - (v.length + 1) =
          (l ++ a ++ [c] ++ call).length := by
        simp
        omega
      rw [spliceInner, hsome]
      simp only [hlt, if_true, htake, hdrop, hpos]
      rw [ih (by simp at hr ⊢; omega), scan_append hfree, scan_use h₁ h₂ hd]
      simp

theorem takes_frontUse {t : Text} : Pattern.Takes (noQuote :: v.map Pattern.only) t ↔
    ∃ c rest, t = c :: (v ++ rest) ∧ c ≠ '"' := by
  cases t with
  | nil => simp [Pattern.Takes]
  | cons c t =>
    have hc : noQuote.holds c = true ↔ c ≠ '"' := by
      simp [noQuote, CharSet.holds, CharItem.holds]
    have hv : Pattern.Takes (v.map Pattern.only ++ []) t ↔ ∃ rest, t = v ++ rest ∧
        Pattern.Takes [] rest :=
      Pattern.takes_only_append
    rw [List.append_nil] at hv
    rw [Pattern.Takes, hc, hv]
    constructor
    · rintro ⟨hq, rest, rfl, _⟩
      exact ⟨c, rest, rfl, hq⟩
    · rintro ⟨c', rest, heq, hq⟩
      obtain ⟨rfl, rfl⟩ := List.cons.inj heq
      exact ⟨hq, rest, rfl, trivial⟩

theorem replaceFront_of_eq {c : Char} (hc : c ≠ '"') (rest : Text) :
    replaceFront v call (c :: (v ++ rest)) = call ++ rest := by
  simp [replaceFront, hc]

theorem replaceFront_eq_self {t : Text} (h : ∀ c rest, t = c :: (v ++ rest) → c = '"') :
    replaceFront v call t = t := by
  cases t with
  | nil => rfl
  | cons c t =>
    cases ha : Text.after? v t with
    | none => simp only [replaceFront, ha]
    | some rest =>
      have hc := h c rest (by rw [Text.after?_eq_some_iff.mp ha])
      simp only [replaceFront, ha, hc, if_true]

/-- Behind the call there is no front any more, so the second round is the last. -/
theorem spliceFront_eq (t : Text) {rounds : Nat} (hr : 1 < rounds) :
    spliceFront (.frontRow (noQuote :: v.map Pattern.only)) v call rounds t 0 =
      some (replaceFront v call t) := by
  obtain ⟨rounds, rfl⟩ : ∃ n, rounds = n + 2 := ⟨rounds - 2, by omega⟩
  rcases Pattern.search?_frontRow_zero (noQuote :: v.map Pattern.only) t (by simp) with
    ⟨ht, hsome⟩ | ⟨ht, hnone⟩
  · obtain ⟨c, rest, rfl, hc⟩ := takes_frontUse.mp ht
    have hdrop : (c :: (v ++ rest)).drop (noQuote :: v.map Pattern.only).length = rest := by
      simp
    have hpos : (noQuote :: v.map Pattern.only).length + call.length - v.length =
        call.length + 1 := by
      simp
      omega
    rw [spliceFront, hsome]
    simp only [List.length_cons, Nat.zero_lt_succ, if_true, List.take_zero, List.nil_append]
    rw [← List.length_cons, hdrop, hpos, spliceFront, Pattern.search?_frontRow_succ _ _ (by simp),
      replaceFront_of_eq hc]
  · rw [spliceFront, hnone, replaceFront_eq_self]
    intro c rest heq
    by_contra hc
    exact ht (takes_frontUse.mpr ⟨c, rest, heq, hc⟩)

theorem lt_roundLimit (t v call : Text) : t.length + 1 < roundLimit t v call := by
  have h : t.length + v.length + call.length + 2 ≤ roundLimit t v call :=
    Nat.le_mul_self _
  omega

/-- Splicing is one pass from left to right and a look at the front. -/
theorem spliceVariable_eq (hv : ∀ c ∈ v, Pattern.mark? c = none) (t call : Text) :
    spliceVariable t v call = .ok (replaceFront v call (scan v call t)) := by
  have hinner :
      spliceInner (.sequence ((noDotNoQuote :: (v.map Pattern.only ++ [noQuote])).map .one)) v call
      (roundLimit t v call) t 0 = some (scan v call t) :=
    spliceInner_eq (l := []) (fits_innerUse v) (Nat.lt_of_succ_lt (lt_roundLimit t v call))
  have hfront :
      spliceFront (.sequence (.anchor .start :: (noQuote :: v.map Pattern.only).map .one)) v call
      (roundLimit (scan v call t) v call) (scan v call t) 0 =
        some (replaceFront v call (scan v call t)) :=
    spliceFront_eq _ (Nat.lt_of_le_of_lt (Nat.le_add_left 1 _) (lt_roundLimit _ v call))
  rw [spliceVariable, pattern_innerUse hv, pattern_frontUse hv]
  simp only [bind, Except.bind, hinner, hfront]

end NlsBundle.Usage
