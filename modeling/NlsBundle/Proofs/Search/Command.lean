import NlsBundle.Proofs.Search.Answer
import NlsBundle.Proofs.Text.Row

/-!
# Searches carry paths through

A path goes into a command line as it is, and comes back from the division of that line as one word;
the paths that the program prints are the ones that are found. Proved here:

* `splitFrom_single_append`, `splitFrom_double_append`: what stands between quotes is read up to the
  closing quote;
* `split_join_spellings`: words that are written plainly or between quotes, with a space between
  them, are the words of the line;
* `split_messageClassesLine`, `split_resolverClassesLine`, `split_sourceFilesLine`: so each search
  has its path for one word;
* `words_printed`: paths that are printed one to a line are the words of the output;
* `searches_carry_paths`: both together, for each of the searches.
-/

namespace NlsBundle

namespace ShellWords

/-! ## Words and their spellings -/

/-- The ways in which a word is written on a command line: as it is, or between quotes. -/
inductive Spelling : Text → Text → Prop
  | plain {w : Text} (hne : w ≠ []) (hw : w.all isPlain = true) : Spelling w w
  | single {w : Text} (hw : '\'' ∉ w) : Spelling w ('\'' :: (w ++ ['\'']))
  | double {w : Text} (hw : '"' ∉ w) (hescape : '\\' ∉ w) : Spelling w ('"' :: (w ++ ['"']))

theorem splitFrom_single_append {w : Text} (hw : '\'' ∉ w) (read t : Text) :
    splitFrom .single (some read) (w ++ '\'' :: t) = splitFrom .plain (some (read ++ w)) t := by
  induction w generalizing read with
  | nil => simp [splitFrom]
  | cons c w ih =>
    have hc : c ≠ '\'' := fun h => hw (h ▸ List.mem_cons_self)
    have hread : splitFrom .single (some read) (c :: (w ++ '\'' :: t)) =
        splitFrom .single (some (read ++ [c])) (w ++ '\'' :: t) := by
      simp [splitFrom, hc, extend]
    rw [List.cons_append, hread, ih fun h => hw (List.mem_cons_of_mem c h)]
    simp

theorem splitFrom_double_append {w : Text} (hw : '"' ∉ w) (hescape : '\\' ∉ w) (read t : Text) :
    splitFrom .double (some read) (w ++ '"' :: t) = splitFrom .plain (some (read ++ w)) t := by
  induction w generalizing read with
  | nil => simp [splitFrom]
  | cons c w ih =>
    have hc : c ≠ '"' := fun h => hw (h ▸ List.mem_cons_self)
    have hback : c ≠ '\\' := fun h => hescape (h ▸ List.mem_cons_self)
    have hread : splitFrom .double (some read) (c :: (w ++ '"' :: t)) =
        splitFrom .double (some (read ++ [c])) (w ++ '"' :: t) := by
      simp [splitFrom, hc, hback, extend]
    rw [List.cons_append, hread,
      ih (fun h => hw (List.mem_cons_of_mem c h)) fun h => hescape (List.mem_cons_of_mem c h)]
    simp

/-- Between words, a spelling is read as its word. -/
theorem Spelling.splitFrom_append {w u : Text} (h : Spelling w u) (t : Text) :
    splitFrom .plain none (u ++ t) = splitFrom .plain (some w) t := by
  cases h with
  | plain hne hw =>
    obtain ⟨c, w, rfl⟩ := List.exists_cons_of_ne_nil hne
    rw [List.all_cons, Bool.and_eq_true] at hw
    obtain ⟨hc, hw⟩ := hw
    simp only [isPlain, Bool.and_eq_true, Bool.not_eq_true', decide_eq_true_eq] at hc
    have hstart : splitFrom .plain none (c :: (w ++ t)) = splitFrom .plain (some [c]) (w ++ t) := by
      simp [splitFrom, hc, extend]
    rw [List.cons_append, hstart, splitFrom_plain_append (List.all_eq_true.mp hw)]
    rfl
  | single hw =>
    have hopen :
        splitFrom .plain none ('\'' :: (w ++ '\'' :: t)) =
          splitFrom .single (some []) (w ++ '\'' :: t) := rfl
    rw [List.cons_append, List.append_assoc, List.singleton_append, hopen,
      splitFrom_single_append hw]
    rfl
  | double hw hescape =>
    have hopen :
        splitFrom .plain none ('"' :: (w ++ '"' :: t)) =
          splitFrom .double (some []) (w ++ '"' :: t) := rfl
    rw [List.cons_append, List.append_assoc, List.singleton_append, hopen,
      splitFrom_double_append hw hescape]
    rfl

/-- Spellings with a space between them are divided into their words. -/
theorem split_join_spellings {ws us : List Text} (h : List.Forall₂ Spelling ws us) :
    split (Text.join [' '] us) = .ok ws := by
  unfold split
  induction h with
  | nil => rfl
  | @cons w u ws us hword hrest ih =>
    cases hrest with
    | nil =>
      rw [Text.join, ← List.append_nil u, hword.splitFrom_append]
      rfl
    | cons hnext hrest =>
      have hspace (t : Text) :
          splitFrom .plain (some w) (' ' :: t) = (w :: ·) <$> splitFrom .plain none t := rfl
      rw [Text.join_cons_cons, List.append_assoc, hword.splitFrom_append, List.singleton_append,
        hspace, ih]
      rfl

end ShellWords

/-! ## Printed paths -/

namespace Text

/-- What a program prints that gives each path a line. -/
def printed (paths : List Text) : Text := paths.flatMap (· ++ ['\n'])

/-- The text is a word: it has characters, and none of them is blank. -/
def IsWord (t : Text) : Prop := t ≠ [] ∧ ∀ c ∈ t, isBlank c = false

instance : DecidablePred IsWord := fun t =>
  decidable_of_iff (t ≠ [] ∧ t.all (! isBlank ·) = true) (by simp [IsWord])

theorem words_printed {paths : List Text} (h : ∀ path ∈ paths, IsWord path) :
    words (printed paths) = paths := by
  induction paths with
  | nil => rfl
  | cons path paths ih =>
    obtain ⟨hne, hsolid⟩ := h path List.mem_cons_self
    have hprinted : printed (path :: paths) = path ++ '\n' :: printed paths := by simp [printed]
    have hrest := ih fun other hother => h other (List.mem_cons_of_mem path hother)
    unfold words at hrest ⊢
    rw [hprinted, splitWhere_append_cons rfl, splitWhere_of_forall hsolid, List.filter_append,
      hrest]
    simp [hne]

end Text

namespace Search

open NlsBundle.Action

/-! ## Command lines -/

/-- The words of a search for classes by what they contain. -/
def classSearch (expression modulePath : Text) : List Text :=
  ["ag".toList, expression, "-G".toList, ".*java$".toList, modulePath, "-l".toList]

/-- The words of a search for source files. -/
def fileSearch (modulePath : Text) : List Text :=
  ["find".toList, modulePath, "-iname".toList, "*.java".toList]

def messageClassExpression : Text := "class.*extends.*NLS".toList

def resolverClassExpression : Text := "static.*final.*IMessageResolver.*MSG.*=".toList

/-- A path that the division of a command line takes for one word. -/
structure IsPlainPath (path : Text) : Prop where
  ne_nil : path ≠ []
  plain : path.all ShellWords.isPlain = true

variable {modulePath : Text}

/-- Both searches for classes are written alike. -/
theorem split_classLine {expression : Text} (hexpression : '\'' ∉ expression)
    (hpath : IsPlainPath modulePath) :
    ShellWords.split
      ("ag '".toList ++ expression ++ "' -G '.*java$' ".toList ++ modulePath ++ " -l".toList) =
      .ok (classSearch expression modulePath) := by
  have hline :
      "ag '".toList ++ expression ++ "' -G '.*java$' ".toList ++ modulePath ++ " -l".toList =
      Text.join [' '] ["ag".toList, '\'' :: (expression ++ ['\'']), "-G".toList, "'.*java$'".toList,
        modulePath, "-l".toList] := by
    simp [Text.join]
  rw [hline]
  apply ShellWords.split_join_spellings
  refine .cons (.plain ?_ ?_) (.cons (.single hexpression)
    (.cons (.plain ?_ ?_) (.cons (.single (w := ".*java$".toList) ?_)
    (.cons (.plain hpath.ne_nil hpath.plain) (.cons (.plain ?_ ?_) .nil)))))
  all_goals decide

theorem split_messageClassesLine (hpath : IsPlainPath modulePath) :
    ShellWords.split (messageClassesLine modulePath) =
      .ok (classSearch messageClassExpression modulePath) := by
  have hfront : "ag 'class.*extends.*NLS' -G '.*java$' ".toList =
      "ag '".toList ++ messageClassExpression ++ "' -G '.*java$' ".toList := by decide
  calc ShellWords.split (messageClassesLine modulePath)
      = ShellWords.split ("ag '".toList ++ messageClassExpression ++
          "' -G '.*java$' ".toList ++ modulePath ++ " -l".toList) :=
        congrArg (fun front => ShellWords.split (front ++ modulePath ++ " -l".toList)) hfront
    _ = .ok (classSearch messageClassExpression modulePath) := split_classLine (by decide) hpath

theorem split_resolverClassesLine (hpath : IsPlainPath modulePath) :
    ShellWords.split (resolverClassesLine modulePath) =
      .ok (classSearch resolverClassExpression modulePath) := by
  have hfront : "ag 'static.*final.*IMessageResolver.*MSG.*=' -G '.*java$' ".toList =
      "ag '".toList ++ resolverClassExpression ++ "' -G '.*java$' ".toList := by decide
  calc ShellWords.split (resolverClassesLine modulePath)
      = ShellWords.split ("ag '".toList ++ resolverClassExpression ++
          "' -G '.*java$' ".toList ++ modulePath ++ " -l".toList) :=
        congrArg (fun front => ShellWords.split (front ++ modulePath ++ " -l".toList)) hfront
    _ = .ok (classSearch resolverClassExpression modulePath) := split_classLine (by decide) hpath

theorem split_sourceFilesLine (hpath : IsPlainPath modulePath) :
    ShellWords.split (sourceFilesLine modulePath) = .ok (fileSearch modulePath) := by
  have hline : sourceFilesLine modulePath =
      Text.join [' '] ["find".toList, modulePath, "-iname".toList, "\"*.java\"".toList] := by
    unfold sourceFilesLine
    simp [Text.join]
  rw [hline]
  apply ShellWords.split_join_spellings
  refine .cons (.plain ?_ ?_) (.cons (.plain hpath.ne_nil hpath.plain) (.cons (.plain ?_ ?_)
    (.cons (.double (w := "*.java".toList) ?_ ?_) .nil)))
  all_goals decide

/-! ## Searches -/

/-- The action calls this command, whatever the answer, and finds the paths that the answer
prints. -/
structure Finds (command : List Text) (a : Action (List Text)) : Prop where
  calls : ∀ s, (outcome a s).2 = called s (.words command)
  paths_eq : ∀ s paths rest, (∀ path ∈ paths, Text.IsWord path) →
    s.answers = .output (.text (Text.printed paths)) :: rest → (outcome a s).1 = .ok paths

theorem finds_run {line program : Text} {arguments : List Text}
    (hline : ShellWords.split line = .ok (program :: arguments)) :
    Finds (program :: arguments) (run line) := by
  have hrun (s : Session) :
      outcome (run line) s = outcome (call (.words (program :: arguments))) s := by
    rw [run, hline]
    rfl
  constructor
  · intro s
    rw [hrun]
    rcases outcome_call_words program arguments s with ⟨e, h⟩ | ⟨_, h⟩ <;> rw [h]
  · intro s paths rest hpaths hanswers
    have hwords : outcome (call (.words (program :: arguments))) s =
        (.ok (Text.words (Text.printed paths)), called s (.words (program :: arguments))) := by
      obtain ⟨tree, dir, processors, answers, threshold, journal⟩ := s
      subst hanswers
      rfl
    rw [hrun, hwords, Text.words_printed hpaths]

/-- **Searches carry paths through unchanged.** Each search calls its program with the path of the
module for one argument, and with its expressions for others, whatever the program answers. If the
program prints paths without blanks, one to a line, these are the ones that are found, in the same
order and as often, but for excluded ones. -/
theorem searches_carry_paths (hpath : IsPlainPath modulePath) (excluded : List Text) :
    (∀ s, (outcome (messageClasses modulePath) s).2 =
          called s (.words (classSearch messageClassExpression modulePath)) ∧
        (outcome (resolverClasses modulePath) s).2 =
          called s (.words (classSearch resolverClassExpression modulePath)) ∧
        (outcome (sourceFiles modulePath excluded) s).2 =
          called s (.words (fileSearch modulePath))) ∧
      ∀ s paths rest, (∀ path ∈ paths, Text.IsWord path) →
        s.answers = .output (.text (Text.printed paths)) :: rest →
          (outcome (messageClasses modulePath) s).1 = .ok paths ∧
          (outcome (resolverClasses modulePath) s).1 = .ok paths ∧
          (outcome (sourceFiles modulePath excluded) s).1 = .ok (paths.filter (· ∉ excluded)) := by
  have hmessages := finds_run (split_messageClassesLine hpath)
  have hresolvers := finds_run (split_resolverClassesLine hpath)
  have hfiles := finds_run (split_sourceFilesLine hpath)
  have hfilter (s : Session) :=
    outcome_bind_pure (run (sourceFilesLine modulePath)) (List.filter (· ∉ excluded)) s
  constructor
  · intro s
    refine ⟨hmessages.calls s, hresolvers.calls s, ?_⟩
    rw [sourceFiles, hfilter]
    exact hfiles.calls s
  · intro s paths rest hpaths hanswers
    refine ⟨hmessages.paths_eq s paths rest hpaths hanswers,
      hresolvers.paths_eq s paths rest hpaths hanswers, ?_⟩
    rw [sourceFiles, hfilter, hfiles.paths_eq s paths rest hpaths hanswers]
    rfl

/-- A session in which the next program prints one path twice and another between. -/
def threePrinted : Session where
  tree := .ofListing [] []
  workingDirectory := ['/']
  processors := 1
  answers := [.output (.text "/w/A.java\n/w/B.java\n/w/A.java\n".toList)]
  threshold := .info
  journal := .empty

/-- The path has braces and a dollar sign, and looks like an option. -/
theorem searches_carry_paths_three :
    (outcome (sourceFiles "-\x7b0\x7d$".toList ["/w/B.java".toList]) threePrinted).1 =
        .ok ["/w/A.java".toList, "/w/A.java".toList] ∧
      (outcome (messageClasses "-\x7b0\x7d$".toList) threePrinted).2.journal.commands =
        [.words (["ag", "class.*extends.*NLS", "-G", ".*java$", "-\x7b0\x7d$", "-l"].map
          String.toList)] := by
  have hpath : IsPlainPath "-\x7b0\x7d$".toList := ⟨by decide, by decide⟩
  obtain ⟨hcalls, hpaths⟩ := searches_carry_paths hpath ["/w/B.java".toList]
  constructor
  · have hwords :
        ∀ path ∈ ["/w/A.java", "/w/B.java", "/w/A.java"].map String.toList, Text.IsWord path := by
      decide +kernel
    rw [(hpaths threePrinted _ [] hwords rfl).2.2]
    decide
  · rw [(hcalls threePrinted).1]
    rfl

end Search

end NlsBundle
