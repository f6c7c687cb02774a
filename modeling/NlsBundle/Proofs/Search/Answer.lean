import NlsBundle.Proofs.Session.Effect
import NlsBundle.Search

/-!
# Searches and their answers

A search puts a path into a command line, calls the program and takes the next answer. Proved here:

* `splitFrom_plain_append`, `split_plain_word`: characters without a meaning of their own make a
  word;
* `outcome_call_words`, `outcome_run_cases`: the next answer is used up in any case, and a call
  gives what it prints;
* `asks_messageClasses`, `asks_sourceFiles`: a search that succeeds gives the words of the next
  answer;
* `of_mapM_asks`: searches one after the other give the words of as many answers, all of which could
  be used.
-/

namespace NlsBundle

namespace ShellWords

/-- The character stands for itself outside of quotes. -/
def isPlain (c : Char) : Bool := !isSeparator c && c ≠ '\\' && c ≠ '\'' && c ≠ '"'

theorem splitFrom_plain_append {w : Text} (hw : ∀ c ∈ w, isPlain c = true) (read t : Text) :
    splitFrom .plain (some read) (w ++ t) = splitFrom .plain (some (read ++ w)) t := by
  induction w generalizing read with
  | nil => rw [List.nil_append, List.append_nil]
  | cons c w ih =>
    have hc := hw c List.mem_cons_self
    simp only [isPlain, Bool.and_eq_true, Bool.not_eq_true', decide_eq_true_eq] at hc
    obtain ⟨⟨⟨hsep, hback⟩, hsingle⟩, hdouble⟩ := hc
    have hread :
        splitFrom .plain (some read) (c :: (w ++ t)) =
          splitFrom .plain (some (read ++ [c])) (w ++ t) := by
      simp [splitFrom, hsep, hback, hsingle, hdouble, extend]
    rw [List.cons_append, hread, ih fun d hd => hw d (List.mem_cons_of_mem c hd)]
    simp

/-- A word of plain characters at the front of a command line is its first word. -/
theorem split_plain_word {w : Text} (hne : w ≠ []) (hw : ∀ c ∈ w, isPlain c = true) (t : Text) :
    split (w ++ ' ' :: t) = (w :: ·) <$> split t := by
  have hstart : split (w ++ ' ' :: t) = splitFrom .plain (some []) (w ++ ' ' :: t) := by
    cases w with
    | nil => exact absurd rfl hne
    | cons c w =>
      have hc := hw c List.mem_cons_self
      simp only [isPlain, Bool.and_eq_true, Bool.not_eq_true', decide_eq_true_eq] at hc
      simp [split, splitFrom, hc, extend]
  rw [hstart, splitFrom_plain_append hw]
  rfl

end ShellWords

/-- The words that a program prints. -/
def Answer.printed : Answer → List Text
  | .output (.text t) => Text.words t
  | _ => []

/-- The program was there, and if it printed something, that was a text. -/
def Answer.Usable (a : Answer) : Prop := a ≠ .noProgram ∧ ∀ bytes, a ≠ .output (.bytes bytes)

namespace Action

/-- The session after a call: an answer less, a command more on record, and the tree as the command
has left it. -/
def called (s : Session) (command : Command) : Session :=
  { s with
    tree := s.treeAfter command
    answers := s.answers.tail
    journal := { s.journal with commands := s.journal.commands ++ [command] } }

theorem untouched_called (s : Session) (words : List Text) :
    Untouched s (called s (.words words)) :=
  ⟨rfl, rfl, rfl⟩

/-- A call gives what the next answer prints, if that answer can be used. -/
theorem outcome_call_words (program : Text) (arguments : List Text) (s : Session) :
    (∃ e, outcome (call (.words (program :: arguments))) s =
        (.error e, called s (.words (program :: arguments)))) ∨
      ((∀ a ∈ s.answers.head?, a.Usable) ∧
        outcome (call (.words (program :: arguments))) s =
          (.ok (s.answers.head?.toList.flatMap Answer.printed),
            called s (.words (program :: arguments)))) := by
  unfold call
  rw [outcome_bind_of_ok (outcome_record _ s)]
  unfold nextAnswer
  obtain ⟨tree, dir, processors, answers, threshold, journal⟩ := s
  cases answers with
  | nil => exact Or.inr ⟨by simp, rfl⟩
  | cons a answers =>
    cases a with
    | noProgram => exact Or.inl ⟨_, rfl⟩
    | failure => exact Or.inr ⟨by simp [Answer.Usable], rfl⟩
    | output content =>
      cases content with
      | bytes b => exact Or.inl ⟨_, rfl⟩
      | text t =>
        refine Or.inr ⟨by simp [Answer.Usable], ?_⟩
        simp only [List.head?_cons, Option.toList_some, List.flatMap_singleton]
        rfl

end Action

namespace Search

open NlsBundle.Action

/-- The action takes the next answer and, if it succeeds, gives the words of that answer but the
excluded ones. -/
structure Asks (excluded : List Text) (a : Action (List Text)) : Prop where
  untouched : Keeps Untouched a
  of_ok : ∀ s paths s', outcome a s = (.ok paths, s') →
    s'.answers = s.answers.tail ∧ (∀ answer ∈ s.answers.head?, answer.Usable) ∧
      paths = (s.answers.head?.toList.flatMap Answer.printed).filter (· ∉ excluded)

/-- A command line that begins with the name of a program calls that program, if it can be divided
into words. -/
theorem outcome_run_cases {program : Text} (hne : program ≠ [])
    (hplain : program.all ShellWords.isPlain = true) (rest : Text) (s : Session) :
    (∃ e, outcome (run (program ++ ' ' :: rest)) s = (.error e, s)) ∨
      ∃ words, ShellWords.split (program ++ ' ' :: rest) = .ok words ∧
        ((∃ e, outcome (run (program ++ ' ' :: rest)) s = (.error e, called s (.words words))) ∨
          ((∀ a ∈ s.answers.head?, a.Usable) ∧
            outcome (run (program ++ ' ' :: rest)) s =
              (.ok (s.answers.head?.toList.flatMap Answer.printed), called s (.words words)))) := by
  unfold run
  rw [ShellWords.split_plain_word hne (List.all_eq_true.mp hplain)]
  cases ShellWords.split rest with
  | error e => exact Or.inl ⟨_, rfl⟩
  | ok arguments => exact Or.inr ⟨program :: arguments, rfl, outcome_call_words program arguments s⟩

theorem asks_run {program : Text} (hne : program ≠ [])
    (hplain : program.all ShellWords.isPlain = true) (rest : Text) :
    Asks [] (run (program ++ ' ' :: rest)) := by
  refine ⟨?_, ?_⟩
  · intro s
    rcases outcome_run_cases hne hplain rest s with ⟨e, h⟩ | ⟨words, _, ⟨e, h⟩ | ⟨_, h⟩⟩
    · rw [h]
      exact refl s
    · rw [h]
      exact untouched_called s _
    · rw [h]
      exact untouched_called s _
  · intro s paths s' h
    rcases outcome_run_cases hne hplain rest s with ⟨e, h'⟩ | ⟨words, _, ⟨e, h'⟩ | ⟨husable, h'⟩⟩
    · rw [h'] at h
      cases h
    · rw [h'] at h
      cases h
    · rw [h'] at h
      cases h
      exact ⟨rfl, husable, (List.filter_eq_self.mpr (by simp)).symm⟩

theorem asks_messageClasses (modulePath : Text) : Asks [] (messageClasses modulePath) := by
  have hline : messageClassesLine modulePath =
      "ag".toList ++
        ' ' :: ("'class.*extends.*NLS' -G '.*java$' ".toList ++ modulePath ++ " -l".toList) := rfl
  rw [messageClasses, hline]
  exact asks_run (by decide) (by decide) _

theorem asks_sourceFiles (modulePath : Text) (excluded : List Text) :
    Asks excluded (sourceFiles modulePath excluded) := by
  have hline : sourceFilesLine modulePath =
      "find".toList ++ ' ' :: (modulePath ++ " -iname \"*.java\"".toList) := rfl
  obtain ⟨huntouched, hok⟩ : Asks [] (run (sourceFilesLine modulePath)) := by
    rw [hline]
    exact asks_run (by decide) (by decide) _
  rw [sourceFiles]
  refine ⟨Keeps.bind huntouched fun paths => Keeps.pure _, ?_⟩
  intro s paths s' h
  obtain ⟨found, s₁, hrun, hrest⟩ := of_outcome_bind_eq_ok h
  cases hrest
  obtain ⟨hanswers, husable, rfl⟩ := hok s found s' hrun
  exact ⟨hanswers, husable, by simp⟩

/-- Searches one after the other use as many answers as there are searches, and give what these
print. -/
theorem of_mapM_asks {excluded : List Text} {f : Text → Action (List Text)}
    (hf : ∀ m, Asks excluded (f m)) {modules : List Text} {s s' : Session}
    {found : List (List Text)} (h : outcome (modules.mapM f) s = (.ok found, s')) :
    s'.answers = s.answers.drop modules.length ∧
      (∀ answer ∈ s.answers.take modules.length, answer.Usable) ∧
      found.flatten =
        ((s.answers.take modules.length).flatMap Answer.printed).filter (· ∉ excluded) := by
  induction modules generalizing s found with
  | nil =>
    cases h
    simp
  | cons m modules ih =>
    rw [List.mapM_cons] at h
    obtain ⟨paths, s₁, hfirst, h⟩ := of_outcome_bind_eq_ok h
    obtain ⟨others, s₂, hothers, h⟩ := of_outcome_bind_eq_ok h
    cases h
    obtain ⟨hanswers, husable, hpaths⟩ := (hf m).of_ok s paths s₁ hfirst
    obtain ⟨hanswers', husable', hfound⟩ := ih hothers
    rw [hanswers] at hanswers' husable' hfound
    cases hs : s.answers with
    | nil =>
      rw [hs] at hanswers' hpaths hfound
      refine ⟨by simpa using hanswers', by simp, ?_⟩
      rw [List.flatten_cons, hfound, hpaths]
      simp
    | cons answer answers =>
      rw [hs] at hanswers' husable husable' hpaths hfound
      refine ⟨hanswers', ?_, ?_⟩
      · intro a ha
        rcases List.mem_cons.mp ha with rfl | ha
        · exact husable a rfl
        · exact husable' a ha
      · rw [List.flatten_cons, hfound, hpaths]
        simp

theorem keeps_mapM_asks {excluded : List Text} {f : Text → Action (List Text)}
    (hf : ∀ m, Asks excluded (f m)) (modules : List Text) : Keeps Untouched (modules.mapM f) :=
  Keeps.mapM fun m _ => (hf m).untouched

end Search

end NlsBundle
