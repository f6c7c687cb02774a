import Mathlib.Data.List.Infix
import NlsBundle.Proofs.MessageClass.Edit

/-!
# Braces of a message class

A text is balanced if no brace is closed before it is opened and none stays open. The edits of a
class search for pieces of text and never count braces, so whether they keep a text balanced depends
on what they take out. Proved here:

* `Balanced.of_braces_eq`: only the braces of a text matter;
* `Balanced.replace`: a part that opens as much as it closes may be replaced by a balanced text;
* `replaceStaticBlock?_eq_none_iff`: a balanced text has the end of its static block;
* `FirstBlock.balanced_resolved_iff`: with the resolver it stays balanced exactly if the static
  block opens no brace;
* `Balanced.addImports`, `Balanced.addToLastClass`: it stays balanced with the imports and the
  look-up method;
* `braces_cleanBlankLines`, `braces_replaceAll_nil`: the other edits keep all braces;
* `adapt_braces`: so the whole class is balanced after the edits, and the look-up method stands
  where some brace is open.
-/

namespace NlsBundle.MessageClass

open Text

/-! ## Depth -/

/-- How many braces are open at the end of a text. -/
def depth (t : Text) : Int := t.count '{' - t.count '}'

/-- No brace is closed before it is opened, and none stays open. -/
structure Balanced (t : Text) : Prop where
  nonneg : ∀ front, front <+: t → 0 ≤ depth front
  depth_eq : depth t = 0

instance : DecidablePred Balanced := fun t =>
  decidable_of_iff ((∀ front ∈ t.inits, 0 ≤ depth front) ∧ depth t = 0)
    ⟨fun h => ⟨fun front hfront => h.1 front ((List.mem_inits front t).mpr hfront), h.2⟩,
     fun h => ⟨fun front hfront => h.nonneg front ((List.mem_inits front t).mp hfront),
      h.depth_eq⟩⟩

@[simp] theorem depth_append (t u : Text) : depth (t ++ u) = depth t + depth u := by
  simp only [depth, List.count_append]
  omega

variable {t u before old new rest piece : Text}

theorem Balanced.nonneg_of_append (h : Balanced (t ++ u)) : 0 ≤ depth t :=
  h.nonneg t (List.prefix_append t u)

/-- The braces of a text, without all that stands between them. -/
def braces (t : Text) : Text := t.filter fun c => c = '{' || c = '}'

@[simp] theorem braces_append (t u : Text) : braces (t ++ u) = braces t ++ braces u :=
  List.filter_append t u

theorem depth_braces (t : Text) : depth (braces t) = depth t := by
  rw [depth, depth, braces, List.count_filter rfl, List.count_filter rfl]

theorem Balanced.of_braces_eq (h : Balanced t) (hbraces : braces t = braces u) : Balanced u where
  nonneg := by
    rintro front ⟨back, rfl⟩
    -- what is in front has the braces of a front of the other text
    rw [braces_append] at hbraces
    obtain ⟨front', back', rfl, hfront, _⟩ := List.filter_eq_append_iff.mp hbraces
    rw [← depth_braces front, ← hfront]
    exact (depth_braces front').symm ▸ h.nonneg_of_append
  depth_eq := by rw [← depth_braces, ← hbraces, depth_braces, h.depth_eq]

theorem Balanced.replace (h : Balanced (before ++ old ++ rest)) (hold : depth old = 0)
    (hnew : Balanced new) :
    Balanced (before ++ new ++ rest) where
  nonneg := by
    rintro front ⟨back, hfront⟩
    rw [List.append_assoc, List.append_eq_append_iff] at hfront
    rw [List.append_assoc] at h
    rcases hfront with ⟨z, rfl, _⟩ | ⟨x, rfl, hx⟩
    · -- the front ends before the new part
      rw [List.append_assoc] at h
      exact h.nonneg_of_append
    · have hbefore := h.nonneg_of_append
      rcases List.append_eq_append_iff.mp hx with ⟨y, rfl, hy⟩ | ⟨y, rfl, _⟩
      · -- it ends after the new part
        rw [hy, ← List.append_assoc, ← List.append_assoc] at h
        have hsame := h.nonneg_of_append
        rw [depth_append, depth_append, hold] at hsame
        rw [depth_append, depth_append, hnew.depth_eq]
        omega
      · -- it ends within the new part
        have hwithin := hnew.nonneg_of_append
        rw [depth_append]
        omega
  depth_eq := by
    have htotal := h.depth_eq
    rw [depth_append, depth_append, hold] at htotal
    rw [depth_append, depth_append, hnew.depth_eq, htotal]

/-! ## The static block -/

/-- The first static block of a text: what stands between its start and the next closing brace. -/
structure FirstBlock (content before block rest : Text) : Prop where
  content_eq : content = before ++ staticBlockStart ++ block ++ '}' :: rest
  first : ∀ a b, content = a ++ staticBlockStart ++ b → before.length ≤ a.length
  end_notMem : '}' ∉ block

theorem notMem_of_cut? {c : Char} (h : cut? [c] t = some (before, rest)) : c ∉ before := by
  intro hc
  obtain ⟨x, y, rfl⟩ := List.append_of_mem hc
  have hle := length_le_of_cut? h (a := x) (b := y ++ [c] ++ rest) (by rw [eq_of_cut? h]; simp)
  rw [List.length_append, List.length_cons] at hle
  omega

theorem of_replaceStaticBlock?_eq_some {content resolved : Text}
    (h : replaceStaticBlock? content = some resolved) :
    ∃ before block rest, FirstBlock content before block rest ∧
      resolved = before ++ resolverField ++ rest := by
  simp only [replaceStaticBlock?, Option.bind_eq_bind, Option.bind_eq_some_iff,
    Option.some.injEq] at h
  obtain ⟨⟨before, inside⟩, hstart, ⟨block, rest⟩, hend, rfl⟩ := h
  refine ⟨before, block, rest,
    ⟨?_, fun a b hab => length_le_of_cut? hstart hab, notMem_of_cut? hend⟩, rfl⟩
  have hinside : inside = block ++ ['}'] ++ rest := eq_of_cut? hend
  rw [eq_of_cut? hstart, hinside]
  simp

theorem depth_staticBlockStart : depth staticBlockStart = 1 := by decide

/-- What a static block opens beyond what it closes is what is opened inside it. -/
theorem FirstBlock.depth_eq {content block : Text} (h : FirstBlock content before block rest) :
    depth (staticBlockStart ++ block ++ ['}']) = block.count '{' := by
  have hclose : block.count '}' = 0 := List.count_eq_zero.mpr h.end_notMem
  have hend : depth ['}'] = -1 := rfl
  rw [depth_append, depth_append, depth_staticBlockStart, hend, depth, hclose]
  omega

theorem FirstBlock.eq_append {content block : Text} (h : FirstBlock content before block rest) :
    content = before ++ (staticBlockStart ++ block ++ ['}']) ++ rest := by
  rw [h.content_eq]
  simp

/-- A balanced text that has the start of a static block has its end too. -/
theorem replaceStaticBlock?_eq_none_iff {content : Text} (h : Balanced content) :
    replaceStaticBlock? content = none ↔ ¬ staticBlockStart <:+: content := by
  cases hstart : cut? staticBlockStart content with
  | none =>
    have hnot : ¬ staticBlockStart <:+: content := by
      rw [← contains_iff]
      simp [contains, hstart]
    simp [replaceStaticBlock?, hstart, hnot]
  | some found =>
    obtain ⟨before, inside⟩ := found
    have hcontent := eq_of_cut? hstart
    -- a brace is open after the start, so one is closed inside
    have hclose : '}' ∈ inside := by
      rw [hcontent] at h
      have hopen := (List.append_assoc before _ _ ▸ h).nonneg_of_append
      have htotal := h.depth_eq
      have hinside : depth inside = inside.count '{' - inside.count '}' := rfl
      rw [depth_append, depth_append, depth_staticBlockStart] at htotal
      rw [← List.count_pos_iff]
      omega
    obtain ⟨a, b, hab⟩ := List.append_of_mem hclose
    have hcontains : contains inside ['}'] = true := contains_iff.mpr ⟨a, b, by simp [hab]⟩
    obtain ⟨⟨block, rest⟩, hend⟩ := Option.isSome_iff_exists.mp hcontains
    have hin : staticBlockStart <:+: content := ⟨before, inside, hcontent.symm⟩
    simp [replaceStaticBlock?, hstart, hend, hin]

theorem balanced_of_braces_eq_nil (h : braces t = []) : Balanced t :=
  (show Balanced [] by decide).of_braces_eq h.symm

/-- The resolver in place of the static block keeps a text balanced exactly if the block opens no
brace. -/
theorem FirstBlock.balanced_resolved_iff {content block : Text}
    (hblock : FirstBlock content before block rest) (h : Balanced content) :
    Balanced (before ++ resolverField ++ rest) ↔ '{' ∉ block := by
  have hfield : Balanced resolverField := balanced_of_braces_eq_nil (by decide +kernel)
  have hdepth := hblock.depth_eq
  rw [hblock.eq_append] at h
  constructor
  · intro hresolved
    have htotal := h.depth_eq
    have htotal' := hresolved.depth_eq
    rw [depth_append, depth_append, hdepth] at htotal
    rw [depth_append, depth_append, hfield.depth_eq] at htotal'
    rw [← List.count_eq_zero]
    omega
  · intro hopen
    rw [List.count_eq_zero.mpr hopen] at hdepth
    exact h.replace hdepth hfield

/-! ## The other edits -/

theorem Balanced.insert (h : Balanced (before ++ rest)) (hnew : Balanced new) :
    Balanced (before ++ new ++ rest) := by
  rw [← List.append_nil before] at h
  exact h.replace rfl hnew

theorem Balanced.addImports {t' : Text} (h : Balanced t)
    (hedit : addImports? t baseClassImport = some t') : Balanced t' := by
  simp only [addImports?, Option.map_eq_some_iff] at hedit
  obtain ⟨⟨before, rest⟩, hcut, rfl⟩ := hedit
  have himports : Balanced importBlock := balanced_of_braces_eq_nil (by decide +kernel)
  rw [eq_of_cut? hcut, List.append_assoc] at h
  show Balanced (before ++ importBlock ++ baseClassImport ++ rest)
  rw [List.append_assoc _ baseClassImport]
  exact h.insert himports

/-- The look-up method is put where a brace is open: the one that is closed after it. -/
theorem Balanced.addToLastClass {t' : Text} (h : Balanced t)
    (hedit : addToLastClass? t lookupMethod = some t') :
    Balanced t' ∧ ∃ front back, t = front ++ classEnd ++ back ∧
      t' = front ++ lookupMethod ++ classEnd ++ back ∧
      1 ≤ depth front := by
  simp only [addToLastClass?, Option.map_eq_some_iff] at hedit
  obtain ⟨⟨front, back⟩, hcut, rfl⟩ := hedit
  have hmethod : Balanced lookupMethod := by decide +kernel
  have hend : depth classEnd = -1 := by decide
  rw [eq_of_cutLast? hcut] at h
  have hclosed := h.nonneg_of_append
  rw [depth_append, hend] at hclosed
  refine ⟨?_, front, back, eq_of_cutLast? hcut, rfl, by omega⟩
  show Balanced (front ++ lookupMethod ++ classEnd ++ back)
  rw [List.append_assoc] at h ⊢
  exact h.insert hmethod

theorem braces_eq_nil_of_allBlank (h : allBlank t = true) : braces t = [] := by
  rw [braces, List.filter_eq_nil_iff]
  intro c hc hbrace
  have hblank : isBlank c = true := List.all_eq_true.mp h c hc
  rw [Bool.or_eq_true, decide_eq_true_eq, decide_eq_true_eq] at hbrace
  rcases hbrace with rfl | rfl
  · exact absurd hblank (by decide)
  · exact absurd hblank (by decide)

theorem braces_cleanBlankLines (t : Text) : braces (cleanBlankLines t) = braces t :=
  read_cleanBlankLines (fun a b => braces_append a ('\n' :: b))
    (fun _ => braces_eq_nil_of_allBlank) t

theorem braces_replaceAll_nil (hp : piece ≠ []) (hpiece : braces piece = []) (t : Text) :
    braces (replaceAll t piece []) = braces t := by
  induction hn : t.length using Nat.strong_induction_on generalizing t with
  | _ n ih =>
    rcases replaceAll_cases hp [] t with ⟨_, ht⟩ | ⟨a, b, rfl, _, ht⟩
    · rw [ht]
    · have hlen : b.length < n := by
        have hpos := List.length_pos_of_ne_nil hp
        simp only [List.length_append] at hn
        omega
      rw [ht, List.append_nil, braces_append, ih b.length hlen b rfl, braces_append, braces_append,
        hpiece, List.append_nil]

/-! ## All edits -/

/-- **Braces of an adapted class.** A balanced class cannot get a resolver exactly if it has no
static block. If it has one, what comes out is balanced exactly if no brace is opened between the
start of the first one and the next closing brace. In that case the class is balanced after all
edits, if they can be made, and the look-up method is put at a place where some brace is open. -/
theorem adapt_braces {content : Text} (h : Balanced content) :
    (replaceStaticBlock? content = none ↔ ¬ staticBlockStart <:+: content) ∧
    ∀ resolved, replaceStaticBlock? content = some resolved →
      ∃ before block rest, FirstBlock content before block rest ∧
        resolved = before ++ resolverField ++ rest ∧
        (Balanced resolved ↔ '{' ∉ block) ∧
        ('{' ∉ block → ∀ imported complete, addImports? resolved baseClassImport = some imported →
          addToLastClass? imported lookupMethod = some complete →
          adapt content = .ok (replaceAll (cleanBlankLines complete) baseClassClause []) ∧
          Balanced (replaceAll (cleanBlankLines complete) baseClassClause []) ∧
          ∃ front back, imported = front ++ classEnd ++ back ∧
            complete = front ++ lookupMethod ++ classEnd ++ back ∧
            1 ≤ depth front) := by
  refine ⟨replaceStaticBlock?_eq_none_iff h, fun resolved hresolved => ?_⟩
  obtain ⟨before, block, rest, hblock, rfl⟩ := of_replaceStaticBlock?_eq_some hresolved
  have hiff := hblock.balanced_resolved_iff h
  refine ⟨before, block, rest, hblock, rfl, hiff,
    fun hopen imported complete himported hcomplete => ?_⟩
  obtain ⟨hbalanced, hplace⟩ := ((hiff.mpr hopen).addImports himported).addToLastClass hcomplete
  have hbraces : braces (replaceAll (cleanBlankLines complete) baseClassClause []) =
      braces complete := by
    rw [braces_replaceAll_nil (by decide) (by decide), braces_cleanBlankLines]
  refine ⟨?_, hbalanced.of_braces_eq hbraces.symm, hplace⟩
  simp only [adapt, hresolved, himported, hcomplete]

/-- A class with the given parts: new imports, what it begins with, and a method. -/
def sampleClass (imports field method : Text) : Text :=
  imports ++ baseClassImport ++ ";\nclass M extends NLS \x7b\n  ".toList ++ field ++ method ++
    "\n\x7d\n".toList

theorem adapt_braces_sample :
    Balanced (sampleClass [] "static \x7b\n  \x7d".toList []) ∧
    ∃ adapted, adapt (sampleClass [] "static \x7b\n  \x7d".toList []) = .ok adapted ∧
      Balanced adapted := by
  have hbalanced : Balanced (sampleClass [] "static \x7b\n  \x7d".toList []) := by decide +kernel
  obtain ⟨_, _, _, _, _, hiff, hedits⟩ :=
    (adapt_braces hbalanced).2 (sampleClass [] resolverField []) (by decide +kernel)
  obtain ⟨hadapt, hadapted, _⟩ :=
    hedits (hiff.mp (by decide +kernel)) (sampleClass importBlock resolverField [])
    (sampleClass importBlock resolverField lookupMethod) (by decide +kernel) (by decide +kernel)
  exact ⟨hbalanced, _, hadapt, hadapted⟩

end NlsBundle.MessageClass
