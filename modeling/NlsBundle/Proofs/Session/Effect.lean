import Mathlib.Order.Defs.Unbundled
import NlsBundle.Session

/-!
# What actions do to a session

An action is taken apart by its outcome: what it gives, and the session that it leaves. Proved here:

* `outcome_bind_of_ok`, `outcome_bind_of_error`, `of_outcome_bind_eq_ok`: a failure ends an action,
  and what was done before it stays done;
* `outcome_readText_of_holds`, `outcome_readText_cases`: a text is read exactly where a file holds
  it;
* `outcome_writeText_cases`, `holds_of_outcome_writeText`: a text is written, and the file holds it,
  or nothing happens;
* `Keeps.bind`, `Keeps.mapM`: what every part of an action keeps, the action keeps;
* `keeps_readText`, `keeps_writeText`, `untouched_say`: the steps that actions are made of keep what
  they do not name.
-/

namespace NlsBundle

namespace FileTree

theorem read_eq_ok_iff {tree : FileTree} {path : Text} {content : Content} :
    tree.read path = .ok content ↔ tree.file? path = some content := by
  unfold read
  cases tree.file? path with
  | some found => simp
  | none =>
    by_cases hdir : tree.isDirectory path = true <;> simp [hdir]

theorem lookup_putFile (path : Text) (content : Content) (files : List (Text × Content)) :
    (putFile path content files).lookup path = some content := by
  induction files with
  | nil => simp [putFile]
  | cons entry rest ih =>
    by_cases h : entry.1 = path
    · simp [putFile, h]
    · have hne : (path == entry.1) = false := by simpa using Ne.symm h
      rw [putFile, if_neg h, List.lookup_cons, hne]
      exact ih

theorem file?_write {tree tree' : FileTree} {path : Text} {content : Content}
    (h : tree.write path content = .ok tree') : tree'.file? path = some content := by
  unfold write at h
  split at h
  · cases h
  · split at h
    · cases h
      exact lookup_putFile path content tree.files
    · cases h

end FileTree

/-- The path leads to a file with this text. -/
structure Session.Holds (s : Session) (path content : Text) : Prop where
  path_ne_nil : path ≠ []
  file_eq : s.tree.file? (s.locate path) = some (.text content)

theorem Session.Holds.content_eq {s : Session} {path t u : Text} (h : s.Holds path t)
    (h' : s.Holds path u) : t = u := by
  have hfile := h.file_eq.symm.trans h'.file_eq
  cases hfile
  rfl

namespace Action

variable {α β : Type} {s s' : Session}

/-- What an action gives, and the session that it leaves. -/
def outcome (a : Action α) (s : Session) : Except Failure α × Session := a.run.run s

theorem outcome_eq_of_fst {a : Action α} {r : Except Failure α} (h : (outcome a s).1 = r) :
    outcome a s = (r, (outcome a s).2) := by
  rw [← h]

/-! ## Parts of an action -/

@[simp] theorem outcome_pure (x : α) (s : Session) : outcome (pure x) s = (.ok x, s) := rfl

@[simp] theorem outcome_throw (e : Failure) (s : Session) :
    outcome (throw e : Action α) s = (.error e, s) := rfl

@[simp] theorem outcome_get (s : Session) : outcome get s = (.ok s, s) := rfl

@[simp] theorem outcome_record (f : Journal → Journal) (s : Session) :
    outcome (record f) s = (.ok (), { s with journal := f s.journal }) := rfl

@[simp] theorem outcome_attempt (a : Action α) (s : Session) :
    outcome (attempt a) s = (.ok (outcome a s).1, (outcome a s).2) := rfl

theorem outcome_bind_of_ok {a : Action α} {f : α → Action β} {x : α}
    (h : outcome a s = (.ok x, s')) :
    outcome (a >>= f) s = outcome (f x) s' := by
  unfold outcome at h ⊢
  rw [ExceptT.run_bind, StateT.run_bind, h]
  rfl

theorem outcome_bind_of_error {a : Action α} {f : α → Action β} {e : Failure}
    (h : outcome a s = (.error e, s')) :
    outcome (a >>= f) s = (.error e, s') := by
  unfold outcome at h ⊢
  rw [ExceptT.run_bind, StateT.run_bind, h]
  rfl

/-- An action that succeeds has gone through its first part. -/
theorem of_outcome_bind_eq_ok {a : Action α} {f : α → Action β} {y : β}
    (h : outcome (a >>= f) s = (.ok y, s')) :
    ∃ x s₁, outcome a s = (.ok x, s₁) ∧ outcome (f x) s₁ = (.ok y, s') := by
  rcases ha : outcome a s with ⟨r, s₁⟩
  cases r with
  | ok x =>
    rw [outcome_bind_of_ok ha] at h
    exact ⟨x, s₁, rfl, h⟩
  | error e =>
    rw [outcome_bind_of_error ha] at h
    cases h

theorem outcome_bind_pure (a : Action α) (g : α → β) (s : Session) :
    outcome (do pure (g (← a))) s = ((outcome a s).1.map g, (outcome a s).2) := by
  rcases h : outcome a s with ⟨r, s₁⟩
  cases r with
  | ok x =>
    rw [outcome_bind_of_ok h]
    rfl
  | error e =>
    rw [outcome_bind_of_error h]
    rfl

@[simp] theorem outcome_ofExcept {ε : Type} (toFailure : ε → Failure) (r : Except ε α)
    (s : Session) :
    outcome (ofExcept toFailure r) s = (r.mapError toFailure, s) := by
  cases r <;> rfl

theorem of_outcome_ofExcept_eq_ok {ε : Type} {toFailure : ε → Failure} {r : Except ε α} {x : α}
    (h : outcome (ofExcept toFailure r) s = (.ok x, s')) : r = .ok x := by
  cases r with
  | ok y =>
    cases h
    rfl
  | error e => cases h

/-! ## Files -/

theorem outcome_readText_of_holds {path t : Text} (h : s.Holds path t) :
    outcome (readText path) s = (.ok t, s) := by
  unfold readText
  rw [if_neg h.path_ne_nil]
  dsimp only
  rw [outcome_bind_of_ok (outcome_get s), FileTree.read_eq_ok_iff.mpr h.file_eq]
  rfl

/-- Reading gives the text of a file and changes nothing. -/
theorem outcome_readText_cases (path : Text) (s : Session) :
    (∃ t, s.Holds path t ∧ outcome (readText path) s = (.ok t, s)) ∨
      ((∀ t, ¬ s.Holds path t) ∧ ∃ e, outcome (readText path) s = (.error e, s)) := by
  by_cases h : ∃ t, s.Holds path t
  · obtain ⟨t, ht⟩ := h
    exact Or.inl ⟨t, ht, outcome_readText_of_holds ht⟩
  · refine Or.inr ⟨not_exists.mp h, ?_⟩
    unfold readText
    by_cases hpath : path = []
    · rw [if_pos hpath]
      exact ⟨_, rfl⟩
    · rw [if_neg hpath]
      dsimp only
      rw [outcome_bind_of_ok (outcome_get s)]
      cases hread : s.tree.read (s.locate path) with
      | error fault => exact ⟨_, rfl⟩
      | ok content =>
        cases content with
        | bytes b => exact ⟨_, rfl⟩
        | text t => exact absurd ⟨t, hpath, FileTree.read_eq_ok_iff.mp hread⟩ h

/-- A text is written and recorded, or nothing happens. -/
theorem outcome_writeText_cases (path content : Text) (s : Session) :
    (∃ e, outcome (writeText path content) s = (.error e, s)) ∨
      ∃ tree, s.tree.write (s.locate path) (.text content) = .ok tree ∧
        outcome (writeText path content) s = (.ok (), { s with
          tree
          journal := { s.journal with
            writes := s.journal.writes ++ [⟨path, s.locate path, content⟩] } }) := by
  unfold writeText
  rw [outcome_bind_of_ok (outcome_get s)]
  cases hwrite : s.tree.write (s.locate path) (.text content) with
  | error fault => exact Or.inl ⟨_, rfl⟩
  | ok tree => exact Or.inr ⟨tree, rfl, rfl⟩

/-- A file holds what has been written to it. -/
theorem holds_of_outcome_writeText {path content : Text} (hpath : path ≠ [])
    (h : outcome (writeText path content) s = (.ok (), s')) : s'.Holds path content := by
  rcases outcome_writeText_cases path content s with ⟨e, herror⟩ | ⟨tree, hwrite, hok⟩
  · rw [herror] at h
    cases h
  · rw [hok] at h
    cases h
    exact ⟨hpath, FileTree.file?_write hwrite⟩

/-! ## What actions keep -/

/-- Whatever the action gives, the session that it leaves stands in the relation to the one
before. -/
def Keeps (R : Session → Session → Prop) (a : Action α) : Prop := ∀ s, R s (outcome a s).2

section

variable {R : Session → Session → Prop} [IsPreorder Session R]

theorem Keeps.pure (x : α) : Keeps R (Pure.pure x : Action α) := fun s => refl s

theorem Keeps.throw (e : Failure) : Keeps R (MonadExcept.throw e : Action α) := fun s => refl s

theorem Keeps.ofExcept {ε : Type} (toFailure : ε → Failure) (r : Except ε α) :
    Keeps R (Action.ofExcept toFailure r) := by
  intro s
  rw [outcome_ofExcept]
  exact refl s

theorem Keeps.get : Keeps R MonadState.get := fun s => refl s

theorem Keeps.bind {a : Action α} {f : α → Action β} (ha : Keeps R a) (hf : ∀ x, Keeps R (f x)) :
    Keeps R (a >>= f) := by
  intro s
  have hfirst := ha s
  rcases h : outcome a s with ⟨r, s₁⟩
  rw [h] at hfirst
  cases r with
  | ok x =>
    rw [outcome_bind_of_ok h]
    exact IsTrans.trans _ _ _ hfirst (hf x s₁)
  | error e =>
    rw [outcome_bind_of_error h]
    exact hfirst

theorem Keeps.mapM {f : α → Action β} {xs : List α} (h : ∀ x ∈ xs, Keeps R (f x)) :
    Keeps R (xs.mapM f) := by
  induction xs with
  | nil => exact Keeps.pure []
  | cons x xs ih =>
    rw [List.mapM_cons]
    refine Keeps.bind (h x List.mem_cons_self) fun y => ?_
    exact Keeps.bind (ih fun z hz => h z (List.mem_cons_of_mem x hz)) fun ys => Keeps.pure _

omit [IsPreorder Session R] in
theorem Keeps.attempt {a : Action α} (h : Keeps R a) : Keeps R (Action.attempt a) := h

theorem keeps_readText (path : Text) : Keeps R (readText path) := by
  intro s
  rcases outcome_readText_cases path s with ⟨t, _, h⟩ | ⟨_, e, h⟩
  · rw [h]
    exact refl s
  · rw [h]
    exact refl s

end

/-- Files are written at paths of some kind only, and all that was recorded before stays
recorded. -/
structure WritesAt (p : Text → Prop) (s s' : Session) : Prop where
  workingDirectory_eq : s'.workingDirectory = s.workingDirectory
  exists_writes : ∃ ws, s'.journal.writes = s.journal.writes ++ ws ∧ ∀ w ∈ ws, p w.given

instance (p : Text → Prop) : IsPreorder Session (WritesAt p) where
  refl s := ⟨rfl, [], by simp, by simp⟩
  trans := by
    rintro s t u ⟨hdir, ws, hws, hp⟩ ⟨hdir', ws', hws', hp'⟩
    refine ⟨hdir'.trans hdir, ws ++ ws', by rw [hws', hws, List.append_assoc], ?_⟩
    intro w hw
    rcases List.mem_append.mp hw with hw | hw
    · exact hp w hw
    · exact hp' w hw

theorem keeps_writeText {p : Text → Prop} {path : Text} (hp : p path) (content : Text) :
    Keeps (WritesAt p) (writeText path content) := by
  intro s
  rcases outcome_writeText_cases path content s with ⟨e, h⟩ | ⟨tree, _, h⟩
  · rw [h]
    exact refl s
  · rw [h]
    exact ⟨rfl, _, rfl, by simpa using hp⟩

/-- No file is written: there is the same tree as before and nothing new in the record of writes. -/
structure Untouched (s s' : Session) : Prop where
  tree_eq : s'.tree = s.tree
  workingDirectory_eq : s'.workingDirectory = s.workingDirectory
  writes_eq : s'.journal.writes = s.journal.writes

instance : IsPreorder Session Untouched where
  refl _ := ⟨rfl, rfl, rfl⟩
  trans _ _ _ h h' := ⟨h'.1.trans h.1, h'.2.trans h.2, h'.3.trans h.3⟩

theorem Untouched.writesAt (p : Text → Prop) (h : Untouched s s') : WritesAt p s s' :=
  ⟨h.workingDirectory_eq, [], by rw [h.writes_eq, List.append_nil], by simp⟩

theorem Untouched.holds_iff (h : Untouched s s') (path t : Text) :
    s'.Holds path t ↔ s.Holds path t := by
  have hlocate : s'.locate path = s.locate path := by
    rw [Session.locate, Session.locate, h.workingDirectory_eq]
  constructor
  · rintro ⟨hpath, hfile⟩
    exact ⟨hpath, by rw [← h.tree_eq, ← hlocate, hfile]⟩
  · rintro ⟨hpath, hfile⟩
    exact ⟨hpath, by rw [h.tree_eq, hlocate, hfile]⟩

theorem outcome_say_cases (level : Level) (message : Text) (s : Session) :
    ∃ ms, outcome (say level message) s =
      (.ok (), { s with journal := { s.journal with messages := ms } }) := by
  unfold say
  rw [outcome_bind_of_ok (outcome_get s)]
  split
  · exact ⟨_, rfl⟩
  · exact ⟨s.journal.messages, rfl⟩

theorem untouched_say (level : Level) (message : Text) : Keeps Untouched (say level message) := by
  intro s
  obtain ⟨ms, h⟩ := outcome_say_cases level message s
  rw [h]
  exact ⟨rfl, rfl, rfl⟩

theorem Keeps.writesAt {a : Action α} (p : Text → Prop) (h : Keeps Untouched a) :
    Keeps (WritesAt p) a :=
  fun s => (h s).writesAt p

end Action

end NlsBundle
