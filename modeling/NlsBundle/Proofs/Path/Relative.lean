import NlsBundle.Proofs.Path.Normal

/-!
# Relative paths lead back

The way from one directory to a path climbs out of what the two do not share, and then goes down.
Proved here:

* `dropCommon_spec`: two lists are a common front and what is left of each of them;
* `foldl_climb_dots`: as many `..` as there are components take them all back;
* `normalize_join_join`: it makes no difference which of two paths in a row is appended first;
* `normalize_join_relative`: so the way to a path, appended to the directory where it starts, leads
  to that path.
-/

namespace NlsBundle.Path

theorem dropCommon_spec (as bs : List Text) :
    ∃ common, as = common ++ (dropCommon as bs).1 ∧ bs = common ++ (dropCommon as bs).2 := by
  fun_induction dropCommon as bs with
  | case1 as b bs ih =>
    obtain ⟨common, has, hbs⟩ := ih
    exact ⟨b :: common, congrArg (b :: ·) has, congrArg (b :: ·) hbs⟩
  | case2 a as b bs hne => exact ⟨[], rfl, rfl⟩
  | case3 as bs hnot => exact ⟨[], rfl, rfl⟩

theorem foldl_climb_dots {xs : List Text} (h : ∀ c ∈ xs, IsPlain c) (found : List Text) :
    (List.replicate xs.length ['.', '.']).foldl (climb true) (xs ++ found) = found := by
  induction xs with
  | nil => rfl
  | cons x xs ih =>
    have hx := h x List.mem_cons_self
    have hback : climb true (x :: (xs ++ found)) ['.', '.'] = xs ++ found := by
      simp [climb, hx.ne_dots]
    rw [List.length_cons, List.replicate_succ, List.foldl_cons, List.cons_append, hback,
      ih fun c hc => h c (List.mem_cons_of_mem x hc)]

/-- The components of the way from `as` to `bs`: up to where both meet, and then down. -/
def wayFrom (as bs : List Text) : List Text :=
  (dropCommon as bs).1.map (fun _ => ['.', '.']) ++ (dropCommon as bs).2

section

variable {as bs : List Text}

theorem isComponent_of_mem_wayFrom (as : List Text) (h : ∀ c ∈ bs, IsComponent c) :
    ∀ c ∈ wayFrom as bs, IsComponent c := by
  obtain ⟨common, _, hbs⟩ := dropCommon_spec as bs
  intro c hc
  rcases List.mem_append.mp hc with hup | hdown
  · obtain ⟨_, _, rfl⟩ := List.mem_map.mp hup
    decide
  · exact h c (by rw [hbs]; exact List.mem_append_right common hdown)

/-- The way from one list of components to another leads there. -/
theorem foldl_climb_wayFrom (has : ∀ c ∈ as, IsPlain c) (hbs : ∀ c ∈ bs, IsPlain c) :
    (wayFrom as bs).foldl (climb true) as.reverse = bs.reverse := by
  obtain ⟨common, hup, hdown⟩ := dropCommon_spec as bs
  generalize hway : dropCommon as bs = way at hup hdown
  obtain ⟨up, down⟩ := way
  subst hup hdown
  have hplainUp : ∀ c ∈ up.reverse, IsPlain c := fun c hc => has c (by simpa using Or.inr hc)
  have hplainDown : ∀ c ∈ down, IsPlain c := fun c hc => hbs c (List.mem_append_right common hc)
  have hdots : up.map (fun _ => ['.', '.']) = List.replicate up.reverse.length ['.', '.'] := by
    rw [List.map_const', List.length_reverse]
  rw [wayFrom, hway, List.foldl_append, hdots, List.reverse_append, foldl_climb_dots hplainUp,
    foldl_climb_of_plain hplainDown, List.reverse_append]

end

/-! ## Relative paths -/

section

variable {workingDirectory path start rest : Text}

theorem isAbsolute_join_workingDirectory (h : isAbsolute workingDirectory = true) (path : Text) :
    isAbsolute (join workingDirectory path) = true := by
  by_cases hpath : isAbsolute path = true
  · rwa [join_of_isAbsolute hpath]
  · rwa [isAbsolute_join (by simpa using hpath)]

theorem ne_nil_of_isAbsolute (h : isAbsolute path = true) : path ≠ [] := by
  rintro rfl
  cases h

/-- Where neither path begins with exactly two slashes, the two together begin with one. -/
theorem leadingSlashes_join_eq_one (h : isAbsolute workingDirectory = true)
    (htwo : leadingSlashes workingDirectory ≠ 2) (hpath : leadingSlashes path ≠ 2) :
    leadingSlashes (join workingDirectory path) = 1 := by
  have hone : ∀ p, isAbsolute p = true → leadingSlashes p ≠ 2 → leadingSlashes p = 1 := by
    intro p hp hne
    have hpos := leadingSlashes_pos hp
    have hle := leadingSlashes_le_two p
    omega
  by_cases habsolute : isAbsolute path = true
  · rw [join_of_isAbsolute habsolute, hone path habsolute hpath]
  · rw [leadingSlashes_join (by simpa using habsolute) (ne_nil_of_isAbsolute h),
      hone workingDirectory h htwo]

theorem normalize_join_join (h : isAbsolute workingDirectory = true)
    (hrest : isAbsolute rest = false) :
    normalize (join workingDirectory (join start rest)) =
      normalize (join (join workingDirectory start) rest) := by
  by_cases hstart : isAbsolute start = true
  · rw [join_of_isAbsolute (by rwa [isAbsolute_join hrest]), join_of_isAbsolute hstart]
  · have hstart' : isAbsolute start = false := by simpa using hstart
    have hboth : isAbsolute (join start rest) = false := by rwa [isAbsolute_join hrest]
    have hne := ne_nil_of_isAbsolute h
    have hne' := ne_nil_of_isAbsolute (isAbsolute_join_workingDirectory h start)
    refine normalize_congr ?_ ?_
    · rw [leadingSlashes_join hboth hne, leadingSlashes_join hrest hne',
        leadingSlashes_join hstart' hne]
    · rw [components_join hboth, components_join hrest, components_join hrest,
        components_join hstart', List.append_assoc]

theorem components_absolute (h : isAbsolute workingDirectory = true) (path : Text) :
    components (absolute workingDirectory path) =
      resolve true (components (join workingDirectory path)) := by
  rw [absolute, normalize_of_isAbsolute (isAbsolute_join_workingDirectory h path)]
  exact components_rooted fun c hc => (plain_of_mem_resolve hc).toIsComponent

/-- The way to a path begins without a slash, and its components are those of the way, or nothing
but a `.`. -/
theorem relative_spec (h : isAbsolute workingDirectory = true) (path start : Text) :
    isAbsolute (relative workingDirectory path start) = false ∧
      ∀ found, (components (relative workingDirectory path start)).foldl (climb true) found =
        (wayFrom (resolve true (components (join workingDirectory start)))
          (resolve true (components (join workingDirectory path)))).foldl (climb true) found := by
  have hrelative : relative workingDirectory path start =
      if wayFrom (resolve true (components (join workingDirectory start)))
          (resolve true (components (join workingDirectory path))) = [] then ['.']
      else Text.join [separator] (wayFrom (resolve true (components (join workingDirectory start)))
          (resolve true (components (join workingDirectory path)))) := by
    rw [relative, components_absolute h, components_absolute h]
    rfl
  have hcomponents :=
    isComponent_of_mem_wayFrom (resolve true (components (join workingDirectory start)))
    fun c (hc : c ∈ resolve true (components (join workingDirectory path))) =>
      (plain_of_mem_resolve hc).toIsComponent
  rw [hrelative]
  split
  · rename_i hnil
    rw [hnil]
    exact ⟨rfl, fun found => rfl⟩
  · exact ⟨isAbsolute_text_join hcomponents, fun found => by rw [components_text_join hcomponents]⟩

/-- The way to a path, appended to where it starts, leads to the path. Slashes at the front are not
part of the way, so both have to have the same number of them. -/
theorem normalize_join_relative (h : isAbsolute workingDirectory = true)
    (hslashes : leadingSlashes (join workingDirectory start) =
      leadingSlashes (join workingDirectory path)) :
    normalize (join (join workingDirectory start) (relative workingDirectory path start)) =
      absolute workingDirectory path := by
  obtain ⟨hrelative, hway⟩ := relative_spec h path start
  have hstart := isAbsolute_join_workingDirectory h start
  have hresolve : resolve true (components (join workingDirectory start) ++
      components (relative workingDirectory path start)) =
        resolve true (components (join workingDirectory path)) := by
    have hfound : (components (join workingDirectory start)).foldl (climb true) [] =
        (resolve true (components (join workingDirectory start))).reverse := by
      rw [resolve, List.reverse_reverse]
    rw [resolve, List.foldl_append, hfound, hway,
      foldl_climb_wayFrom (fun _ hc => plain_of_mem_resolve hc)
      (fun _ hc => plain_of_mem_resolve hc), List.reverse_reverse]
  rw [normalize_of_isAbsolute (by rwa [isAbsolute_join hrelative]), components_join hrelative,
    hresolve, leadingSlashes_join hrelative (ne_nil_of_isAbsolute hstart), hslashes, absolute,
    normalize_of_isAbsolute (isAbsolute_join_workingDirectory h path)]

end

end NlsBundle.Path
