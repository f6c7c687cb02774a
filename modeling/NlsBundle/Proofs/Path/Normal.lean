import Mathlib.Data.List.TakeWhile
import NlsBundle.Path
import NlsBundle.Proofs.Text.Row

/-!
# Normal forms of paths

A path is known by the number of slashes at its front and by its components. Proved here:

* `components_join`, `leadingSlashes_join`: what a path appended to a directory is known by;
* `normalize_congr`: paths that are known by the same have the same normal form;
* `components_rooted`, `leadingSlashes_rooted`, `join_rooted`: slashes and components, written one
  after the other, are read back, and a component can be appended to them;
* `normalize_of_isAbsolute`, `plain_of_mem_resolve`, `resolve_of_plain`: the normal form of an
  absolute path is its slashes and its components without `.` and `..`, and such components stay as
  they are.
-/

namespace NlsBundle.Path

/-! ## Components -/

theorem components_append_cons (a b : Text) :
    components (a ++ separator :: b) = components a ++ components b := by
  rw [components, Text.splitWhere_append_cons (by simp), List.filter_append]
  rfl

theorem components_cons (t : Text) : components (separator :: t) = components t :=
  components_append_cons [] t

/-- A text that can stand between two slashes. -/
structure IsComponent (c : Text) : Prop where
  ne_nil : c ≠ []
  notMem : separator ∉ c

instance : DecidablePred IsComponent := fun c =>
  decidable_of_iff (c ≠ [] ∧ separator ∉ c) ⟨fun h => ⟨h.1, h.2⟩, fun h => ⟨h.1, h.2⟩⟩

theorem IsComponent.components_eq {c : Text} (h : IsComponent c) : components c = [c] := by
  have hsplit : Text.splitWhere (· = separator) c = [c] := by
    refine Text.splitWhere_of_forall fun d hd => ?_
    have hne : d ≠ separator := fun heq => h.notMem (heq ▸ hd)
    simpa using hne
  simp [components, hsplit, h.ne_nil]

theorem IsComponent.isAbsolute_eq_false {c : Text} (h : IsComponent c) : isAbsolute c = false := by
  cases c with
  | nil => rfl
  | cons d c =>
    have hd : d ≠ separator := fun heq => h.notMem (heq ▸ List.mem_cons_self)
    simpa [isAbsolute] using hd

theorem isComponent_of_mem {path c : Text} (h : c ∈ components path) : IsComponent c := by
  obtain ⟨hsplit, hne⟩ := List.mem_filter.mp h
  refine ⟨by simpa using hne, fun hmem => ?_⟩
  simpa using Text.not_separator_of_mem_splitWhere hsplit separator hmem

theorem components_text_join {cs : List Text} (h : ∀ c ∈ cs, IsComponent c) :
    components (Text.join [separator] cs) = cs := by
  induction cs with
  | nil => rfl
  | cons c cs ih =>
    have hc := h c List.mem_cons_self
    have hcs := ih fun d hd => h d (List.mem_cons_of_mem c hd)
    cases cs with
    | nil => exact hc.components_eq
    | cons d cs =>
      rw [Text.join_cons_cons, List.append_assoc, List.singleton_append, components_append_cons,
        hc.components_eq, hcs]
      rfl

/-- A path appended to a directory adds its components. -/
theorem components_join {directory path : Text} (h : isAbsolute path = false) :
    components (join directory path) = components directory ++ components path := by
  unfold join
  rw [if_neg (by simp [h])]
  split
  · rename_i hend
    rcases hend with rfl | hend
    · rfl
    · obtain ⟨front, rfl⟩ := List.getLast?_eq_some_iff.mp hend
      rw [List.append_assoc, List.singleton_append, components_append_cons, components_append_cons]
      simp [components, Text.splitWhere]
  · exact components_append_cons directory path

/-! ## Slashes at the front -/

theorem leadingSlashes_le_two (path : Text) : leadingSlashes path ≤ 2 := by
  unfold leadingSlashes
  dsimp only
  split <;> omega

theorem leadingSlashes_eq_zero_iff {path : Text} :
    leadingSlashes path = 0 ↔ isAbsolute path = false := by
  unfold leadingSlashes isAbsolute
  cases path with
  | nil => simp
  | cons c path =>
    by_cases hc : c = separator
    · simp only [hc, List.takeWhile_cons, decide_true, if_true, List.length_cons, List.head?_cons]
      split <;> simp
    · simp [hc]

theorem leadingSlashes_pos {path : Text} (h : isAbsolute path = true) :
    0 < leadingSlashes path := by
  refine Nat.pos_of_ne_zero fun hzero => ?_
  rw [leadingSlashes_eq_zero_iff.mp hzero] at h
  cases h

theorem takeWhile_of_isAbsolute_eq_false {t : Text} (h : isAbsolute t = false) :
    t.takeWhile (· = separator) = [] := by
  cases t with
  | nil => rfl
  | cons c t =>
    have hc : c ≠ separator := by simpa [isAbsolute] using h
    simp [hc]

/-- A path appended to a directory leaves the slashes at the front as they are. -/
theorem leadingSlashes_join {directory path : Text} (h : isAbsolute path = false)
    (hne : directory ≠ []) :
    leadingSlashes (join directory path) = leadingSlashes directory := by
  have htake :
      (join directory path).takeWhile (· = separator) = directory.takeWhile (· = separator) := by
    unfold join
    rw [if_neg (by simp [h])]
    split
    · rw [List.takeWhile_append]
      split
      · rename_i hlen
        rw [takeWhile_of_isAbsolute_eq_false h, List.append_nil,
          (List.takeWhile_prefix (· = separator)).eq_of_length hlen]
      · rfl
    · rename_i hend
      rw [not_or] at hend
      rw [List.takeWhile_append, if_neg]
      intro hlen
      -- a directory of slashes alone would end with one
      have hall :=
        List.takeWhile_eq_self_iff.mp ((List.takeWhile_prefix (· = separator)).eq_of_length hlen)
      refine hend.2 ?_
      rw [List.getLast?_eq_some_getLast hne]
      simpa using hall (directory.getLast hne) (List.getLast_mem hne)
  rw [leadingSlashes, htake]
  rfl

theorem isAbsolute_join {directory path : Text} (h : isAbsolute path = false) :
    isAbsolute (join directory path) = isAbsolute directory := by
  cases directory with
  | nil => simpa [join, isAbsolute] using h
  | cons c directory =>
    unfold join
    rw [if_neg (by simp [h])]
    split <;> rfl

theorem join_ne_nil {path : Text} (h : path ≠ []) (directory : Text) :
    join directory path ≠ [] := by
  unfold join
  split
  · exact h
  · split
    · exact List.append_ne_nil_of_right_ne_nil directory h
    · simp

theorem join_of_isAbsolute {directory path : Text} (h : isAbsolute path = true) :
    join directory path = path := by
  rw [join, if_pos h]

/-- Slashes and components are all that a normal form depends on. -/
theorem normalize_congr {p q : Text} (hslashes : leadingSlashes p = leadingSlashes q)
    (hcomponents : components p = components q) : normalize p = normalize q := by
  simp only [normalize, hslashes, hcomponents]

/-! ## Written normal forms -/

/-- Some slashes, and then components with a slash between neighbours. -/
def rooted (n : Nat) (cs : List Text) : Text :=
  List.replicate n separator ++ Text.join [separator] cs

theorem isAbsolute_text_join {cs : List Text} (h : ∀ c ∈ cs, IsComponent c) :
    isAbsolute (Text.join [separator] cs) = false := by
  cases cs with
  | nil => rfl
  | cons c cs =>
    have hc := h c List.mem_cons_self
    cases cs with
    | nil => exact hc.isAbsolute_eq_false
    | cons d cs =>
      cases c with
      | nil => exact absurd rfl hc.ne_nil
      | cons x c => exact hc.isAbsolute_eq_false

theorem components_rooted {n : Nat} {cs : List Text} (h : ∀ c ∈ cs, IsComponent c) :
    components (rooted n cs) = cs := by
  unfold rooted
  induction n with
  | zero => exact components_text_join h
  | succ n ih => rw [List.replicate_succ, List.cons_append, components_cons, ih]

theorem leadingSlashes_rooted {n : Nat} {cs : List Text} (h : ∀ c ∈ cs, IsComponent c)
    (hn : n ≤ 2) :
    leadingSlashes (rooted n cs) = n := by
  have htake : (rooted n cs).takeWhile (· = separator) = List.replicate n separator := by
    unfold rooted
    rw [List.takeWhile_append_of_pos (by simp),
      takeWhile_of_isAbsolute_eq_false (isAbsolute_text_join h), List.append_nil]
  simp only [leadingSlashes, htake, List.length_replicate, if_pos hn]

theorem isAbsolute_rooted {n : Nat} (hn : 0 < n) (cs : List Text) :
    isAbsolute (rooted n cs) = true := by
  obtain ⟨n, rfl⟩ := Nat.exists_eq_succ_of_ne_zero (Nat.ne_of_gt hn)
  rfl

theorem getLast?_text_join {cs : List Text} (h : ∀ c ∈ cs, IsComponent c) (hne : cs ≠ []) :
    ∃ x, (Text.join [separator] cs).getLast? = some x ∧ x ≠ separator := by
  obtain ⟨front, c, rfl⟩ : ∃ front c, cs = front ++ [c] :=
    ⟨_, _, (List.dropLast_append_getLast hne).symm⟩
  have hc := h c (by simp)
  have hjoin : ∃ t, Text.join [separator] (front ++ [c]) = t ++ c := by
    by_cases hfront : front = []
    · exact ⟨[], by rw [hfront]; rfl⟩
    · exact ⟨_, Text.join_concat [separator] hfront c⟩
  obtain ⟨t, ht⟩ := hjoin
  refine ⟨c.getLast hc.ne_nil, ?_, ?_⟩
  · rw [ht, List.getLast?_append_of_ne_nil _ hc.ne_nil, List.getLast?_eq_some_getLast hc.ne_nil]
  · intro hlast
    exact hc.notMem (hlast ▸ List.getLast_mem hc.ne_nil)

/-- A component is appended to a written normal form. -/
theorem join_rooted {n : Nat} (hn : 0 < n) {cs : List Text} (h : ∀ c ∈ cs, IsComponent c) {c : Text}
    (hc : IsComponent c) : join (rooted n cs) c = rooted n (cs ++ [c]) := by
  unfold join
  rw [if_neg (by simp [hc.isAbsolute_eq_false])]
  by_cases hcs : cs = []
  · subst hcs
    obtain ⟨n, rfl⟩ := Nat.exists_eq_succ_of_ne_zero (Nat.ne_of_gt hn)
    have hend : (rooted (n + 1) []).getLast? = some separator := by
      simp [rooted, Text.join, List.replicate_succ']
    rw [if_pos (Or.inr hend)]
    simp [rooted, Text.join]
  · obtain ⟨x, hx, hne⟩ := getLast?_text_join h hcs
    have hjoin : Text.join [separator] cs ≠ [] := by
      intro hnil
      rw [hnil] at hx
      cases hx
    have hend : (rooted n cs).getLast? = some x := by
      rw [rooted, List.getLast?_append_of_ne_nil _ hjoin, hx]
    rw [if_neg]
    · rw [rooted, rooted, Text.join_concat [separator] hcs]
      simp
    · rintro (hnil | hlast)
      · rw [hnil] at hend
        cases hend
      · rw [hend] at hlast
        exact hne (Option.some.inj hlast)

/-! ## Normal forms of absolute paths -/

/-- A component that is neither `.` nor `..`. -/
structure IsPlain (c : Text) : Prop extends IsComponent c where
  ne_dot : c ≠ ['.']
  ne_dots : c ≠ ['.', '.']

instance : DecidablePred IsPlain := fun c =>
  decidable_of_iff (IsComponent c ∧ c ≠ ['.'] ∧ c ≠ ['.', '.'])
    ⟨fun h => ⟨h.1, h.2.1, h.2.2⟩, fun h => ⟨h.1, h.2, h.3⟩⟩

theorem climb_of_isPlain {c : Text} (h : IsPlain c) (found : List Text) :
    climb true found c = c :: found := by
  simp [climb, h.ne_dot, h.ne_dots]

theorem foldl_climb_of_plain {cs : List Text} (h : ∀ c ∈ cs, IsPlain c) (found : List Text) :
    cs.foldl (climb true) found = cs.reverse ++ found := by
  induction cs generalizing found with
  | nil => rfl
  | cons c cs ih =>
    rw [List.foldl_cons, climb_of_isPlain (h c List.mem_cons_self),
      ih fun d hd => h d (List.mem_cons_of_mem c hd)]
    simp

theorem resolve_of_plain {cs : List Text} (h : ∀ c ∈ cs, IsPlain c) : resolve true cs = cs := by
  rw [resolve, foldl_climb_of_plain h]
  simp

theorem plain_climb {found : List Text} (hfound : ∀ d ∈ found, IsPlain d) {c : Text}
    (hc : IsComponent c) :
    ∀ d ∈ climb true found c, IsPlain d := by
  unfold climb
  split
  · exact hfound
  · split
    · cases found with
      | nil => simp
      | cons last rest =>
        have hlast := hfound last List.mem_cons_self
        simp only [hlast.ne_dots, if_false]
        exact fun d hd => hfound d (List.mem_cons_of_mem last hd)
    · rename_i hdot hdots
      intro d hd
      rcases List.mem_cons.mp hd with rfl | hd
      · exact ⟨hc, hdot, hdots⟩
      · exact hfound d hd

theorem plain_foldl_climb {cs found : List Text} (hfound : ∀ d ∈ found, IsPlain d)
    (h : ∀ c ∈ cs, IsComponent c) :
    ∀ d ∈ cs.foldl (climb true) found, IsPlain d := by
  induction cs generalizing found with
  | nil => exact hfound
  | cons c cs ih =>
    exact ih (plain_climb hfound (h c List.mem_cons_self)) fun d hd =>
      h d (List.mem_cons_of_mem c hd)

theorem plain_of_mem_resolve {path c : Text} (h : c ∈ resolve true (components path)) : IsPlain c :=
  plain_foldl_climb (by simp) (fun _ hd => isComponent_of_mem hd) c (List.mem_reverse.mp h)

/-- The normal form of an absolute path. -/
theorem normalize_of_isAbsolute {path : Text} (h : isAbsolute path = true) :
    normalize path = rooted (leadingSlashes path) (resolve true (components path)) := by
  have hpos := leadingSlashes_pos h
  have hne : rooted (leadingSlashes path) (resolve true (components path)) ≠ [] := by
    intro hnil
    have := isAbsolute_rooted hpos (resolve true (components path))
    rw [hnil] at this
    cases this
  have hslashes : decide (leadingSlashes path ≠ 0) = true := by simpa using Nat.ne_of_gt hpos
  simp only [normalize, hslashes]
  exact if_neg hne

/-- What is written in normal form is its own normal form. -/
theorem normalize_rooted {n : Nat} (hn : 0 < n) (hn' : n ≤ 2) {cs : List Text}
    (h : ∀ c ∈ cs, IsPlain c) :
    normalize (rooted n cs) = rooted n cs := by
  have hcs : ∀ c ∈ cs, IsComponent c := fun c hc => (h c hc).toIsComponent
  rw [normalize_of_isAbsolute (isAbsolute_rooted hn cs), leadingSlashes_rooted hcs hn',
    components_rooted hcs, resolve_of_plain h]

end NlsBundle.Path
