import NlsBundle.Proofs.Rule.Build
import NlsBundle.Proofs.Usage.Outline
import NlsBundle.Proofs.Usage.Scene

/-!
# What rules do to the calls of other rules

A variable that is imported with everything in its class is used in one place. Its rule puts a call
there. But all rules of the class are applied to the whole text, so each of them may find its own
variable in the import or, if it comes later, in the call.

* `Spares`: what the names must be like for a rule to do no harm;
* `Spoilt`: the texts that no further rule can mend, told by their outline;
* `Steady.step`: one more rule keeps the text as it should be if it does no harm, and otherwise
  spoils it;
* `convert_inserted_key_iff`: the use of a variable is converted exactly if no rule of its class
  does harm.

The order of the rules and the look at the neighbours of a use keep a shorter variable out of the
key where it is at one of its ends, but not where it is inside (`convert_inserted_key_damaged`).
-/

namespace NlsBundle.Usage

/-! ## Uses that are none -/

/-- A part of a name has neighbours that make it a use, unless it is at an end of the name and a dot
or a quote stands there. -/
theorem use_in_name {n u w v : Text} (front : Text) (m : Char) (rest : Text) (hn : IsName n)
    (h : n = u ++ w ++ v) (hleft : u = [] → ∃ a c, front = a ++ [c] ∧ c ≠ '.' ∧ c ≠ '"')
    (hright : v = [] → m ≠ '"') :
    ∃ a c d b, front ++ n ++ m :: rest = a ++ c :: (w ++ d :: b) ∧ a ++ [c] = front ++ u ∧
      c ≠ '.' ∧ c ≠ '"' ∧ d ≠ '"' := by
  obtain ⟨a, c, hac, hdot, hquote⟩ : ∃ a c, front ++ u = a ++ [c] ∧ c ≠ '.' ∧ c ≠ '"' := by
    rcases List.eq_nil_or_concat' u with rfl | ⟨u', c, rfl⟩
    · simpa using hleft rfl
    · have hc : c ∈ n := by simp [h]
      refine ⟨front ++ u', c, by simp, ?_, ?_⟩ <;> rintro rfl <;> exact hn.notMem (by decide) hc
  obtain ⟨d, b, hdb, hd⟩ : ∃ d b, v ++ m :: rest = d :: b ∧ d ≠ '"' := by
    cases v with
    | nil => exact ⟨m, rest, rfl, hright rfl⟩
    | cons d v =>
      have hd : d ∈ n := by simp [h]
      refine ⟨d, v ++ m :: rest, rfl, ?_⟩
      rintro rfl
      exact hn.notMem (by decide) hd
  refine ⟨a, c, d, b, ?_, hac.symm, hdot, hquote, hd⟩
  calc front ++ n ++ m :: rest = (front ++ u) ++ w ++ (v ++ m :: rest) := by rw [h]; simp
    _ = a ++ c :: (w ++ d :: b) := by rw [hac, hdb]; simp

/-! ## Texts that are beyond repair -/

/-- A text with a mark that the converted text does not have. -/
def Spoilt (t : Text) : Prop := OpensWithName t ∧ ¬ (outline t).Sublist [';', '(', ';']

theorem Spoilt.grows {t t' : Text} (h : Spoilt t) (hg : Grows t t') : Spoilt t' := by
  obtain ⟨hopens, hsub⟩ := hg h.1
  exact ⟨hopens, fun h' => h.2 (hsub.trans h')⟩

theorem outline_scene {head : Text} (h : outline head = []) (used : Text) :
    outline (scene head used) = ';' :: (outline used ++ [';']) := by
  have hassign : outline assignment = [';'] := by decide
  have hend : outline lineEnd = [';'] := by decide
  rw [scene, outline_append, outline_append, outline_append, h, hassign, hend]
  simp

theorem opensWithName_scene (r : Rule) (used : Text) : OpensWithName (scene (starImport r) used) :=
  ⟨'i', _, rfl, by decide⟩

theorem not_spoilt_converted {r : Rule} (hr : r.WellNamed) :
    ¬ Spoilt (scene (classImport r) r.call) := by
  rw [Spoilt, outline_scene (outline_classImport hr), outline_call hr]
  simp

/-- A call in the import stands before all marks. -/
theorem spoilt_scan_import {r w : Rule} (hr : r.WellNamed) (hb : Beside r w) {u v : Text}
    (hclass : r.className = u ++ w.variableName ++ v) (hu : u ≠ []) :
    Spoilt (scan w.variableName w.call (scene (starImport r) r.variableName)) := by
  obtain ⟨a, c, d, b, ht, hac, hdot, hquote, hd⟩ := use_in_name (classFront r) '.'
    ('*' :: (assignment ++ r.variableName ++ lineEnd)) hr.className hclass (fun h => absurd h hu)
      (fun _ => by decide)
  have hscene : scene (starImport r) r.variableName = a ++ c :: (w.variableName ++ d :: b) := by
    rw [scene_starImport, ← ht]
    simp
  have hw := outline_name hb.wellNamed.variableName
  refine ⟨(grows_scan hw w.call _ (opensWithName_scene r _)).1, fun hsub => ?_⟩
  obtain ⟨x, y, hxy, hx, hins⟩ := scan_inserts hb.wellNamed hw (a := a) (b := b) hdot hquote hd
  rw [← hscene] at hxy hins
  have hfront : outline x = [] := by
    have himport : a ++ [c] <+: starImport r := by
      refine ⟨w.variableName ++ v ++ ['.', '*'], ?_⟩
      rw [hac, starImport_eq, classFront, hclass]
      simp
    have hprefix : outline x <+: outline (starImport r) := (hx.trans himport).filter isMark
    rw [outline_starImport hr] at hprefix
    exact List.prefix_nil.mp hprefix
  have hback : outline y = [';', ';'] := by
    have hmarks := congrArg outline hxy
    rw [outline_scene (outline_starImport hr), outline_name hr.variableName, outline_append,
      hfront] at hmarks
    exact hmarks.symm
  rw [hfront, hback] at hins
  exact absurd (hins.trans hsub) (by decide)

/-- A second call is one too many. -/
theorem not_sublist_of_inserted {r : Rule} (hr : r.WellNamed) {x y t : Text}
    (h : scene (starImport r) r.call = x ++ y)
    (ht : (outline x ++ '(' :: outline y).Sublist (outline t)) :
    ¬ (outline t).Sublist [';', '(', ';'] := by
  intro hsub
  have hcount := (ht.trans hsub).count_le '('
  have hscene := congrArg (fun t => (outline t).count '(') h
  simp only [outline_scene (outline_starImport hr), outline_call hr, outline_append,
    List.count_append] at hscene
  rw [List.count_append, List.count_cons_self,
    show [';', '(', ';'].count '(' = 1 from by decide] at hcount
  rw [show (';' :: (['('] ++ [';'])).count '(' = 1 from by decide] at hscene
  omega

theorem spoilt_scan_call {r w : Rule} (hr : r.WellNamed) (hw : w.WellNamed)
    {n u v front rest : Text} {m : Char} (hn : IsName n)
    (hscene : scene (starImport r) r.call = front ++ n ++ m :: rest)
    (hpart : n = u ++ w.variableName ++ v)
    (hleft : u = [] → ∃ a c, front = a ++ [c] ∧ c ≠ '.' ∧ c ≠ '"') (hright : v = [] → m ≠ '"') :
    Spoilt (scan w.variableName w.call (scene (starImport r) r.call)) := by
  have hname := outline_name hw.variableName
  refine ⟨(grows_scan hname w.call _ (opensWithName_scene r _)).1, ?_⟩
  obtain ⟨a, c, d, b, ht, _, hdot, hquote, hd⟩ := use_in_name front m rest hn hpart hleft hright
  obtain ⟨x, y, hxy, _, hins⟩ := scan_inserts hw hname (a := a) (b := b) hdot hquote hd
  rw [← ht, ← hscene] at hxy hins
  exact not_sublist_of_inserted hr hxy hins

theorem spoilt_replaceAll_call {r w : Rule} (hr : r.WellNamed) (hw : w.WellNamed)
    (h : w.usage <:+: scene (starImport r) r.call) :
    Spoilt (Text.replaceAll (scene (starImport r) r.call) w.usage w.call) := by
  obtain ⟨x, y, hxy, hins⟩ := replaceAll_inserts hw h
  have hgrows := grows_replaceAll hw.usage_ne_nil (outline_usage hw) (opensWithName_call hw)
    (scene (starImport r) r.call)
  exact ⟨(hgrows (opensWithName_scene r _)).1, not_sublist_of_inserted hr hxy hins⟩

/-! ## What a rule does to the use and to the call -/

/-- The text after a rule that has not been applied before. -/
def ruledText (w : Rule) (t : Text) : Text :=
  Text.replaceAll (Progress.splicedText w t) w.usage w.call

theorem grows_ruledText {w : Rule} (hw : w.WellNamed) (t : Text) :
    Grows (scan w.variableName w.call t) (ruledText w t) :=
  (grows_replaceFront (outline_name hw.variableName) (opensWithName_call hw) _).trans
    (grows_replaceAll hw.usage_ne_nil (outline_usage hw) (opensWithName_call hw) _)

/-- The variable of `w` is in the class of `r` at most at its front, where a dot stands before
it. -/
def LeavesImport (r w : Rule) : Prop := ∀ a b, r.className = a ++ w.variableName ++ b → a = []

/-- The variable of `w` is neither in the class of `r` nor in the name of the look-up method, and it
is no inner part of the key. -/
structure LeavesCall (r w : Rule) : Prop where
  class_free : ¬ w.variableName <:+: r.className
  lookup_free : ¬ w.variableName <:+: lookupName
  key_edge : ∀ a b, r.variableName = a ++ w.variableName ++ b → a = [] ∨ b = []

section

variable {r w : Rule} (hr : r.WellNamed) (hb : Beside r w)
include hr hb

theorem spoilt_of_not_leavesImport (h : ¬ LeavesImport r w) :
    Spoilt (ruledText w (scene (starImport r) r.variableName)) := by
  simp only [LeavesImport, not_forall] at h
  obtain ⟨u, v, hclass, hu⟩ := h
  exact (spoilt_scan_import hr hb hclass hu).grows (grows_ruledText hb.wellNamed _)

/-- A rule that is about no part of the use, and leaves the import, does nothing. -/
theorem ruledText_variable (hnot : ¬ w.variableName <:+: r.variableName) (h : LeavesImport r w) :
    ruledText w (scene (starImport r) r.variableName) = scene (starImport r) r.variableName := by
  rw [ruledText, splicedText_variable hb h hnot]
  exact Text.replaceAll_of_not_infix hb.wellNamed.usage_ne_nil (usage_not_in_scene_variable hr hb)

theorem ruledText_call (h : LeavesCall r w) :
    ruledText w (scene (starImport r) r.call) = scene (starImport r) r.call := by
  rw [ruledText,
    splicedText_call hr hb h.class_free (fun a b hl => absurd ⟨a, b, hl.symm⟩ h.lookup_free)
      h.key_edge]
  refine Text.replaceAll_of_not_infix hb.wellNamed.usage_ne_nil fun hin => ?_
  exact h.lookup_free ((usage_in_scene_call hr hb).mp hin).isInfix

/-- Wherever the variable of `w` may be in the call, the rule puts a second call there. -/
theorem spoilt_of_not_leavesCall (h : ¬ LeavesCall r w) :
    Spoilt (ruledText w (scene (starImport r) r.call)) := by
  have hscene : scene (starImport r) r.call = starImport r ++ assignment ++ r.className ++
      '.' :: (lookupName ++ '(' :: '"' :: (r.variableName ++ '"' :: ')' :: lineEnd)) := by
    rw [scene, hr.call_eq]
    simp
  by_cases hclass : w.variableName <:+: r.className
  · obtain ⟨u, v, hclass⟩ := hclass
    refine (spoilt_scan_call hr hb.wellNamed hr.className hscene hclass.symm
      (fun _ => ?_) fun _ => by decide).grows
      (grows_ruledText hb.wellNamed _)
    exact ⟨_, ' ', by rw [assignment_eq, ← List.append_assoc], by decide, by decide⟩
  by_cases hlookup : ∃ u v, lookupName = u ++ w.variableName ++ v ∧ u ≠ []
  · obtain ⟨u, v, hlookup, hu⟩ := hlookup
    have hscene' :
        scene (starImport r) r.call =
          (starImport r ++ assignment ++ r.className ++ ['.']) ++ lookupName ++
        '(' :: '"' :: (r.variableName ++ '"' :: ')' :: lineEnd) := by
      rw [hscene]
      simp
    exact (spoilt_scan_call hr hb.wellNamed (by decide) hscene' hlookup (fun h => absurd h hu)
      fun _ => by decide).grows (grows_ruledText hb.wellNamed _)
  by_cases hkey : ∃ u v, r.variableName = u ++ w.variableName ++ v ∧ u ≠ [] ∧ v ≠ []
  · obtain ⟨u, v, hkey, hu, hv⟩ := hkey
    have hscene' : scene (starImport r) r.call = (starImport r ++ assignment ++ r.className ++
        '.' :: (lookupName ++ ['(', '"'])) ++ r.variableName ++ '"' :: ')' :: lineEnd := by
      rw [hscene]
      simp
    exact (spoilt_scan_call hr hb.wellNamed hr.variableName hscene' hkey (fun h => absurd h hu)
      fun h => absurd h hv).grows (grows_ruledText hb.wellNamed _)
  -- nothing is spliced in, so it is the use with its class that is found
  have hfront : ∀ a b, lookupName = a ++ w.variableName ++ b → a = [] := by
    intro a b hab
    by_contra ha
    exact hlookup ⟨a, b, hab, ha⟩
  have hedge : ∀ a b, r.variableName = a ++ w.variableName ++ b → a = [] ∨ b = [] := by
    intro a b hab
    by_contra hne
    rw [not_or] at hne
    exact hkey ⟨a, b, hab, hne⟩
  have hprefix : w.variableName <+: lookupName := by
    by_contra hnot
    refine h ⟨hclass, ?_, hedge⟩
    rintro ⟨a, b, hab⟩
    obtain rfl := hfront a b hab.symm
    exact hnot ⟨b, hab⟩
  rw [ruledText, splicedText_call hr hb hclass hfront hedge]
  exact spoilt_replaceAll_call hr hb.wellNamed ((usage_in_scene_call hr hb).mpr hprefix)

end

/-- The rule of the variable puts its call in, and takes no part of the call for a use. -/
theorem ruledText_own {r : Rule} (hr : r.WellNamed) (hb : Beside r r) (h : LeavesImport r r)
    (hlookup : ¬ r.variableName <+: lookupName) :
    ruledText r (scene (starImport r) r.variableName) = scene (starImport r) r.call := by
  rw [ruledText, splicedText_own hb h]
  refine Text.replaceAll_of_not_infix hr.usage_ne_nil fun hin => ?_
  exact hlookup ((usage_in_scene_call hr hb).mp hin)

theorem spoilt_own {r : Rule} (hr : r.WellNamed) (hb : Beside r r) (h : LeavesImport r r)
    (hlookup : r.variableName <+: lookupName) :
    Spoilt (ruledText r (scene (starImport r) r.variableName)) := by
  rw [ruledText, splicedText_own hb h]
  exact spoilt_replaceAll_call hr hr ((usage_in_scene_call hr hb).mpr hlookup)

/-! ## Along the rules -/

/-- The rule `w` does no harm to the text in which `r` is used: in the import it finds nothing, in
the call of `r` it finds nothing if it comes after `r`, and `r` itself does not take its own call
for a use. -/
structure Spares (r w : Rule) : Prop where
  leavesImport : LeavesImport r w
  leavesCall : Rule.le r w = false → LeavesCall r w
  own : w = r → ¬ r.variableName <+: lookupName

/-- What has been replaced comes from the rules `done`. -/
structure Remembers (r : Rule) (done : List Rule) (s : Progress) : Prop where
  variable_iff : ∀ w, Beside r w → (w.variableName ∈ s.replaced ↔ w ∈ done)
  usage_mem : ∀ w, Beside r w → w.usage ∈ s.replaced → w ∈ done
  star_notMem : starImport r ∉ s.replaced

/-- What the use has become after the rules `done`. -/
def usedAfter (r : Rule) (done : List Rule) : Text := if r ∈ done then r.call else r.variableName

/-- The rules `done` have converted the use, if `r` is one of them, and done nothing else. -/
structure Steady (r : Rule) (done : List Rule) (s : Progress) : Prop
    extends Remembers r done s where
  content_eq : s.content = scene (starImport r) (usedAfter r done)
  spared : ∀ w ∈ done, Spares r w

theorem Beside.eq_of_variableName_eq {r w w' : Rule} (hb : Beside r w) (hb' : Beside r w')
    (h : w.variableName = w'.variableName) : w = w' := by
  have hclass : w.className = w'.className := hb.className_eq.trans hb'.className_eq.symm
  have hpackage : w.package = w'.package := hb.package_eq.trans hb'.package_eq.symm
  have husage : w.usage = w'.usage := by
    rw [hb.wellNamed.usage_eq, hb'.wellNamed.usage_eq, hclass, h]
  have hcall : w.call = w'.call := by
    rw [hb.wellNamed.call_eq, hb'.wellNamed.call_eq, hclass, h]
  cases w
  cases w'
  simp_all

theorem Beside.eq_of_usage_eq {r w w' : Rule} (hb : Beside r w) (hb' : Beside r w')
    (h : w.usage = w'.usage) :
    w = w' :=
  hb.eq_of_variableName_eq hb' (hb'.wellNamed.usage_split (h.symm.trans hb.wellNamed.usage_eq)).2

/-- With the import of everything in its place, and no other, a step is a splice and the conversion
of uses. -/
theorem step_eq_of_star {w : Rule} {s : Progress} (hvariable : ¬ variableImport w <:+: s.content)
    (hstar : starImport w <:+: s.content) : s.step w = (s.spliceUses w).convertQualified w := by
  have htake : s.takeVariableImport w = s := by
    refine if_neg fun h => hvariable ?_
    exact Text.contains_iff.mp h.2
  rw [Progress.step, htake, Progress.takeStarUses, if_pos (Text.contains_iff.mpr hstar)]

section

variable {r w : Rule} {done : List Rule} {s : Progress} (hb : Beside r w)
  (hstep : s.step w = (s.spliceUses w).convertQualified w)
include hb hstep

theorem Remembers.step (h : Remembers r done s) : Remembers r (done ++ [w]) (s.step w) where
  variable_iff := by
    intro w' hb'
    rw [List.mem_append, List.mem_singleton, ← h.variable_iff w' hb']
    constructor
    · intro hin
      rcases Progress.variableName_mem_step hb.wellNamed hb'.wellNamed hin with hold | heq
      · exact Or.inl hold
      · exact Or.inr (hb'.eq_of_variableName_eq hb heq)
    · intro hin
      rw [hstep]
      refine Progress.mem_convertQualified_of_mem (Progress.mem_spliceUses_replaced.mpr ?_)
      rcases hin with hold | rfl
      · exact Or.inr hold
      · exact Or.inl rfl
  usage_mem := by
    intro w' hb' hin
    rcases Progress.usage_mem_step hb.wellNamed hb'.wellNamed hin with hold | heq
    · exact List.mem_append_left _ (h.usage_mem w' hb' hold)
    · exact List.mem_append_right _ (List.mem_singleton.mpr (hb'.eq_of_usage_eq hb heq))
  star_notMem := fun hin => h.star_notMem (Progress.starImport_mem_step hb.wellNamed hin)

/-- A rule that comes for the first time does all it can. -/
theorem Remembers.content_step (h : Remembers r done s) (hnew : w ∉ done) :
    (s.step w).content = ruledText w s.content := by
  have hvariable : w.variableName ∉ s.replaced := fun hin => hnew ((h.variable_iff w hb).mp hin)
  have husage : w.usage ∉ w.variableName :: s.replaced := by
    rw [List.mem_cons, not_or]
    refine ⟨fun heq => ?_, fun hin => hnew (h.usage_mem w hb hin)⟩
    refine absurd (?_ : '.' ∈ w.variableName) (hb.wellNamed.variableName.notMem (by decide))
    rw [← heq, hb.wellNamed.usage_eq]
    simp
  rw [hstep, Progress.spliceUses, if_neg hvariable, Progress.convertQualified]
  split <;> rename_i hcontains
  · rfl
  · refine (Text.replaceAll_of_not_infix hb.wellNamed.usage_ne_nil fun hin => ?_).symm
    exact hcontains ⟨husage, Text.contains_iff.mpr hin⟩

/-- A rule that comes again does nothing where its use is not in the text. -/
theorem Remembers.content_step_again (h : Remembers r done s) (hold : w ∈ done)
    (husage : ¬ w.usage <:+: s.content) : (s.step w).content = s.content := by
  rw [hstep, Progress.spliceUses, if_pos ((h.variable_iff w hb).mpr hold),
    Progress.convertQualified, if_neg]
  exact fun hcontains => husage (Text.contains_iff.mp hcontains.2)

end

theorem starImport_of_beside {r w : Rule} (hb : Beside r w) : starImport w = starImport r := by
  rw [starImport_eq, starImport_eq, hb.className_eq, hb.package_eq]

theorem classImport_of_beside {r w : Rule} (hb : Beside r w) : classImport w = classImport r := by
  rw [classImport_eq, classImport_eq, hb.className_eq, hb.package_eq]

section

variable {r w : Rule} {done : List Rule} {s : Progress} (hbr : Beside r r) (hb : Beside r w)
include hbr hb

theorem le_eq_false_of_key_le (h : Rule.key w ≤ Rule.key r) (hne : w ≠ r) :
    Rule.le r w = false := by
  rw [← Bool.not_eq_true, Rule.le_iff_key_le]
  exact fun hle => hne (hb.eq_of_variableName_eq hbr (Rule.variableName_eq_of_key_le h hle))

/-- A rule that comes for the first time, in its place in the order, converts the use if it is `r`,
does nothing if it is another one that does no harm, and otherwise spoils the text. -/
theorem ruledText_cases (hnew : w ∉ done) (hbefore : r ∉ done → Rule.key r ≤ Rule.key w)
    (hafter : r ∈ done → Rule.key w ≤ Rule.key r) :
    Spares r w ∧
        ruledText w (scene (starImport r) (usedAfter r done)) =
          scene (starImport r) (usedAfter r (done ++ [w])) ∨
      ¬ Spares r w ∧ Spoilt (ruledText w (scene (starImport r) (usedAfter r done))) := by
  have hr := hbr.wellNamed
  by_cases hdone : r ∈ done
  · have hown : w ≠ r := fun h => hnew (h ▸ hdone)
    rw [usedAfter, usedAfter, if_pos hdone, if_pos (List.mem_append_left [w] hdone)]
    by_cases hcall : LeavesCall r w
    · refine Or.inl ⟨⟨fun a b hab => ?_, fun _ => hcall, fun h => absurd h hown⟩,
        ruledText_call hr hb hcall⟩
      exact absurd ⟨a, b, hab.symm⟩ hcall.class_free
    · refine Or.inr ⟨fun h => hcall (h.leavesCall ?_), spoilt_of_not_leavesCall hr hb hcall⟩
      exact le_eq_false_of_key_le hbr hb (hafter hdone) hown
  have hle : Rule.le r w ≠ false := by simpa using (Rule.le_iff_key_le r w).mpr (hbefore hdone)
  rw [usedAfter, if_neg hdone]
  by_cases himport : LeavesImport r w
  · by_cases hown : w = r
    · subst hown
      rw [usedAfter, if_pos (by simp)]
      by_cases hlookup : w.variableName <+: lookupName
      · exact Or.inr ⟨fun h => h.own rfl hlookup, spoilt_own hr hb himport hlookup⟩
      · exact Or.inl ⟨⟨himport, fun h => absurd h hle, fun _ => hlookup⟩,
          ruledText_own hr hb himport hlookup⟩
    · have hnot : ¬ w.variableName <:+: r.variableName := fun h =>
        hown (hb.eq_of_variableName_eq hbr (h.eq_of_length
          (le_antisymm h.length_le (Rule.length_variableName_le (hbefore hdone)))))
      rw [usedAfter, if_neg (by simp [hdone, Ne.symm hown])]
      exact Or.inl ⟨⟨himport, fun h => absurd h hle, fun h => absurd h hown⟩,
        ruledText_variable hr hb hnot himport⟩
  · exact Or.inr ⟨fun h => himport h.leavesImport, spoilt_of_not_leavesImport hr hb himport⟩

theorem Steady.step_eq (h : Steady r done s) : s.step w = (s.spliceUses w).convertQualified w := by
  refine step_eq_of_star ?_ ?_
  · rw [h.content_eq]
    refine variableImport_not_in_scene hbr.wellNamed hb ?_
    unfold usedAfter
    split
    · exact Or.inr rfl
    · exact Or.inl rfl
  · rw [h.content_eq, starImport_of_beside hb]
    exact (starImport_prefix_scene r _).isInfix

/-- A rule that was applied before has left no use of its own in the text. -/
theorem Steady.usage_not_in (h : Steady r done s) (hold : w ∈ done)
    (hafter : r ∈ done → Rule.key w ≤ Rule.key r) :
    ¬ w.usage <:+: s.content := by
  rw [h.content_eq, usedAfter]
  split <;> rename_i hdone
  · rw [usage_in_scene_call hbr.wellNamed hb]
    by_cases hown : w = r
    · rw [hown]
      exact (h.spared w hold).own hown
    · have hcall := (h.spared w hold).leavesCall (le_eq_false_of_key_le hbr hb (hafter hdone) hown)
      exact fun hprefix => hcall.lookup_free hprefix.isInfix
  · exact usage_not_in_scene_variable hbr.wellNamed hb

/-- One more rule keeps the text steady if it does no harm, and otherwise spoils it. -/
theorem Steady.step (h : Steady r done s) (hbefore : r ∉ done → Rule.key r ≤ Rule.key w)
    (hafter : r ∈ done → Rule.key w ≤ Rule.key r) :
    Steady r (done ++ [w]) (s.step w) ∨ ¬ Spares r w ∧ Spoilt (s.step w).content := by
  have hstep := h.step_eq hbr hb
  have hremembers := h.toRemembers.step hb hstep
  have hspared : Spares r w → ∀ w' ∈ done ++ [w], Spares r w' := by
    intro hw w' hw'
    rcases List.mem_append.mp hw' with hw' | hw'
    · exact h.spared w' hw'
    · exact List.mem_singleton.mp hw' ▸ hw
  by_cases hold : w ∈ done
  · have hsame := h.content_step_again hb hstep hold (h.usage_not_in hbr hb hold hafter)
    have hmem : r ∈ done ++ [w] ↔ r ∈ done := by
      rw [List.mem_append, List.mem_singleton]
      exact ⟨fun h => h.elim id fun h => h ▸ hold, Or.inl⟩
    refine Or.inl ⟨hremembers, ?_, hspared (h.spared w hold)⟩
    rw [hsame, h.content_eq]
    simp only [usedAfter, hmem]
  · have htext := h.content_step hb hstep hold
    rw [h.content_eq] at htext
    rcases ruledText_cases hbr hb hold hbefore hafter with ⟨hspares, hsteady⟩ | ⟨hnot, hspoilt⟩
    · exact Or.inl ⟨hremembers, htext.trans hsteady, hspared hspares⟩
    · exact Or.inr ⟨hnot, htext ▸ hspoilt⟩

end

theorem replaceAll_starImport {r : Rule} (hr : r.WellNamed) :
    Text.replaceAll (scene (starImport r) r.call) (starImport r) (classImport r) =
      scene (classImport r) r.call := by
  have hstar : '*' ∈ starImport r := by
    rw [starImport_eq]
    simp
  have hrest : '*' ∉ assignment ++ (r.call ++ lineEnd) := by
    have hassign : '*' ∉ assignment := by decide
    have hend : '*' ∉ lineEnd := by decide
    have hlookup : '*' ∉ lookupName := by decide
    have hclass := hr.className.notMem (c := '*') (by decide)
    have hname := hr.variableName.notMem (c := '*') (by decide)
    rw [hr.call_eq]
    simp [hassign, hend, hlookup, hclass, hname]
  have hne := List.ne_nil_of_mem hstar
  simp only [scene, List.append_assoc]
  rw [Text.replaceAll_piece_append hne,
    Text.replaceAll_of_not_infix hne fun h => hrest (h.subset hstar)]

/-- The use is converted, and the import of everything too as soon as there was a rule to do it. -/
def ImportTaken (r : Rule) (done : List Rule) (s : Progress) : Prop :=
  done = [] ∧ s.content = scene (starImport r) r.call ∧ starImport r ∉ s.replaced ∨
    s.content = scene (classImport r) r.call ∧ starImport r ∈ s.replaced

theorem ImportTaken.starStep {r w : Rule} {done : List Rule} {s : Progress}
    (h : ImportTaken r done s) (hr : r.WellNamed) (hb : Beside r w) :
    ImportTaken r (done ++ [w]) (s.starStep w) := by
  refine Or.inr ?_
  rw [Progress.starStep, starImport_of_beside hb, classImport_of_beside hb]
  rcases h with ⟨_, hcontent, hstar⟩ | ⟨hcontent, hstar⟩
  · have hin : Text.contains s.content (starImport r) = true := by
      rw [Text.contains_iff, hcontent]
      exact (starImport_prefix_scene r _).isInfix
    rw [if_pos ⟨hin, hstar⟩]
    refine ⟨?_, List.mem_cons_self⟩
    rw [Progress.replace, hcontent, replaceAll_starImport hr]
  · rw [if_neg fun h => h.2 hstar]
    exact ⟨hcontent, hstar⟩

section

variable {r : Rule} {rules : List Rule} (hbeside : ∀ w ∈ rules, Beside r w) (hmem : r ∈ rules)
include hbeside hmem

/-- The rules of a class, in their order, leave a steady text if they all do no harm, and otherwise
a spoilt one. -/
theorem steady_or_spoilt (hsorted : rules.Pairwise fun a b => Rule.key b ≤ Rule.key a) :
    Steady r rules
      (rules.foldl (fun s w => Progress.step w s) ⟨scene (starImport r) r.variableName, []⟩) ∨
      (∃ w ∈ rules, ¬ Spares r w) ∧
        Spoilt (rules.foldl (fun s w => Progress.step w s)
          ⟨scene (starImport r) r.variableName, []⟩).content := by
  refine foldl_induction (P := fun done s =>
    Steady r done s ∨ (∃ w ∈ done, ¬ Spares r w) ∧ Spoilt s.content) ?_ ?_
  · exact Or.inl ⟨⟨by simp, by simp, by simp⟩, by simp [usedAfter], by simp⟩
  · intro done w rest s hrules hs
    have hw : w ∈ rules := by simp [hrules]
    rcases hs with hsteady | ⟨⟨w', hw', hnot⟩, hspoilt⟩
    · rw [hrules, List.pairwise_append, List.pairwise_cons] at hsorted
      have hbefore : r ∉ done → Rule.key r ≤ Rule.key w := by
        intro hdone
        rw [hrules, List.mem_append, List.mem_cons] at hmem
        rcases hmem with hin | rfl | hin
        · exact absurd hin hdone
        · exact le_refl _
        · exact hsorted.2.1.1 r hin
      have hafter : r ∈ done → Rule.key w ≤ Rule.key r :=
        fun hdone => hsorted.2.2 r hdone w List.mem_cons_self
      rcases hsteady.step (hbeside r hmem) (hbeside w hw) hbefore hafter with h | ⟨hnot, hspoilt⟩
      · exact Or.inl h
      · exact Or.inr ⟨⟨w, by simp, hnot⟩, hspoilt⟩
    · exact Or.inr ⟨⟨w', List.mem_append_left _ hw', hnot⟩,
        hspoilt.grows (Progress.grows_step (hbeside w hw).wellNamed s)⟩

/-- The import of everything is replaced by the first rule, and the others find it gone. -/
theorem content_foldl_starStep {s : Progress} (hcontent : s.content = scene (starImport r) r.call)
    (hstar : starImport r ∉ s.replaced) :
    (rules.foldl (fun s w => Progress.starStep w s) s).content = scene (classImport r) r.call := by
  have hrun : ImportTaken r rules (rules.foldl (fun s w => Progress.starStep w s) s) := by
    refine foldl_induction (Or.inl ⟨rfl, hcontent, hstar⟩) ?_
    intro done w rest s hrules hs
    exact hs.starStep (hbeside r hmem).wellNamed (hbeside w (by simp [hrules]))
  rcases hrun with ⟨hnil, _⟩ | ⟨h, _⟩
  · exact absurd hmem (by simp [hnil])
  · exact h

/-- The use becomes its call, and the import that of the class, exactly if no rule does harm. -/
theorem convert_scene (hsorted : rules.Pairwise fun a b => Rule.key b ≤ Rule.key a) :
    ∃ t, convert (scene (starImport r) r.variableName) rules = .ok t ∧
      (t = scene (classImport r) r.call ↔ ∀ w ∈ rules, Spares r w) := by
  have hwell : ∀ w ∈ rules, w.WellNamed := fun w hw => (hbeside w hw).wellNamed
  refine ⟨_, convert_eq hwell _, ?_⟩
  rcases steady_or_spoilt hbeside hmem hsorted with hsteady | ⟨⟨w, hw, hnot⟩, hspoilt⟩
  · have hcontent := hsteady.content_eq
    rw [usedAfter, if_pos hmem] at hcontent
    exact iff_of_true (content_foldl_starStep hbeside hmem hcontent hsteady.star_notMem)
      hsteady.spared
  · refine iff_of_false (fun h => not_spoilt_converted (hwell r hmem) ?_) fun h => hnot (h w hw)
    rw [← h]
    refine foldl_induction (P := fun _ (s : Progress) => Spoilt s.content) hspoilt ?_
    intro done w rest s hrules hs
    exact hs.grows (Progress.grows_starStep (hwell w (by simp [hrules])) s)

end

/-! ## Listings -/

instance (r w : Rule) : Decidable (LeavesImport r w) :=
  inferInstanceAs (Decidable (∀ a b, r.className = a ++ w.variableName ++ b → a = []))

instance (r w : Rule) : Decidable (LeavesCall r w) :=
  decidable_of_iff (¬ w.variableName <:+: r.className ∧ ¬ w.variableName <:+: lookupName ∧
      ∀ a b, r.variableName = a ++ w.variableName ++ b → a = [] ∨ b = [])
    ⟨fun ⟨h₁, h₂, h₃⟩ => ⟨h₁, h₂, h₃⟩, fun ⟨h₁, h₂, h₃⟩ => ⟨h₁, h₂, h₃⟩⟩

instance (r w : Rule) : Decidable (Spares r w) :=
  decidable_of_iff (LeavesImport r w ∧ (Rule.le r w = false → LeavesCall r w) ∧
      (w = r → ¬ r.variableName <+: lookupName))
    ⟨fun ⟨h₁, h₂, h₃⟩ => ⟨h₁, h₂, h₃⟩, fun ⟨h₁, h₂, h₃⟩ => ⟨h₁, h₂, h₃⟩⟩

/-- A class whose variables are in no word of an import but perhaps its name, and are not the
variable that is assigned, is imported with everything in it, and one of its variables is used. The
conversion by the rules of all its variables always gives a text. That text has the import of the
class and the call with the key in quotes, and all else as before, exactly if every rule of the
class spares the import and the call. -/
theorem convert_inserted_key_iff {path : Text} {declared : List Text}
    {packages : List (Text × Text)} {r : Rule}
    (hnamed : Rule.NamedListing [(path, declared)] packages)
    (hr : Rule.Listed [(path, declared)] packages r)
    (hfree : ∀ w, Rule.Listed [(path, declared)] packages w →
      ¬ w.variableName <:+: w.package ∧ ¬ w.variableName <:+: importWord ∧
        ¬ w.variableName <:+: staticWord ∧ w.variableName ≠ ['x']) :
    ∃ rules t, Rule.build [(path, declared)] packages = .ok rules ∧
      convert (scene (starImport r) r.variableName) rules = .ok t ∧
      (t = scene (classImport r) r.call ↔
        ∀ w, Rule.Listed [(path, declared)] packages w → Spares r w) := by
  obtain ⟨rules, hbuild, hmem, hsorted⟩ := Rule.exists_build_eq_ok hnamed
  have horigin : ∀ w, Rule.Listed [(path, declared)] packages w →
      w.className = Declaration.className path ∧ packages.lookup path = some w.package := by
    rintro w ⟨file, hfile, line, _, hok⟩
    obtain rfl := List.mem_singleton.mp hfile
    exact Rule.of_ofLine_eq_ok hok
  have hbeside : ∀ w ∈ rules, Beside r w := by
    intro w hw
    have hlisted := (hmem w).mp hw
    obtain ⟨hclass, hpackage⟩ := horigin w hlisted
    obtain ⟨hclass', hpackage'⟩ := horigin r hr
    have hsame : w.package = r.package := Option.some.inj (hpackage.symm.trans hpackage')
    obtain ⟨hin, himport, hstatic, hassigned⟩ := hfree w hlisted
    exact ⟨hnamed.wellNamed hlisted, hclass.trans hclass'.symm, hsame, hsame ▸ hin, himport,
      hstatic, hassigned⟩
  obtain ⟨t, hconvert, hiff⟩ := convert_scene hbeside ((hmem r).mpr hr) hsorted
  refine ⟨rules, t, hbuild, hconvert, hiff.trans ?_⟩
  exact forall_congr' fun w => by rw [hmem w]

/-- Two variables, one of them inside the other. -/
def nestedVariables : List Text :=
  ["public static String abc;".toList, "public static String b;".toList]

theorem convert_inserted_key_iff_nested :
    ∃ rules t,
      Rule.build [("M.java".toList, nestedVariables)] [("M.java".toList, "p".toList)] = .ok rules ∧
      convert "import static p.M.*;\n x = abc;\n".toList rules = .ok t ∧
      t ≠ "import p.M;\n x = M.getString(\"abc\");\n".toList := by
  have hnamed :
      Rule.NamedListing [("M.java".toList, nestedVariables)] [("M.java".toList, "p".toList)] := by
    decide +kernel
  have hlisted : Rule.Listed [("M.java".toList, nestedVariables)] [("M.java".toList, "p".toList)]
      (.ofVariable "M".toList "abc".toList "p".toList) := by decide +kernel
  obtain ⟨rules, t, hbuild, hconvert, hiff⟩ :=
    convert_inserted_key_iff hnamed hlisted (by decide +kernel)
  have htext : "import static p.M.*;\n x = abc;\n".toList =
      scene (starImport (.ofVariable "M".toList "abc".toList "p".toList))
        "abc".toList := by decide +kernel
  have hkey : "import p.M;\n x = M.getString(\"abc\");\n".toList =
      scene (classImport (.ofVariable "M".toList "abc".toList "p".toList))
        (Rule.ofVariable "M".toList "abc".toList "p".toList).call := by decide +kernel
  refine ⟨rules, t, hbuild, htext ▸ hconvert, ?_⟩
  -- the rule of `b` comes after that of `abc` and finds its variable between two letters
  rw [hkey, Ne, hiff]
  decide +kernel

/-- What becomes of the key. -/
theorem convert_inserted_key_damaged :
    convert "import static p.M.*;\n x = abc;\n".toList
        [.ofVariable "M".toList "abc".toList "p".toList,
          .ofVariable "M".toList "b".toList "p".toList] =
      .ok "import p.M;\n x = M.getString(\"aM.getString(\"b\")c\");\n".toList := by
  decide +kernel

end NlsBundle.Usage
