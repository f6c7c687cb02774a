import NlsBundle.FileTree
import NlsBundle.Text.Blank

/-!
# Sessions

A session is what a run works on: the file tree, the working directory, the number of processors,
the answers that the external programs will give, and a journal of what was done. An action on a
session gives a result or a failure and, in both cases, the session after it: what was done before
a failure stays done.

External programs are known by their answers. A program that is called by its words is a search,
which looks at files and changes none. A line for the shell may change files; what it does to the
tree is part of the session and may be anything.

Places in the tree are told from paths by their text: there are no links, and a path with exactly
two slashes in front leads to another place than the one with a single slash. A file is read and
decoded as a whole, so a file with a part that is no text cannot be read at all.
-/

namespace NlsBundle

/-! ## Journal -/

inductive Level
  | debug
  | info
  | warning
  | error
  deriving DecidableEq, Repr

def Level.rank : Level → Nat
  | .debug => 0
  | .info => 1
  | .warning => 2
  | .error => 3

/-- An external program is called by its words, or by a line for the shell. -/
inductive Command
  | words (ws : List Text)
  | shell (line : Text)
  deriving DecidableEq, Repr

/-- A file opened for writing: its path as it was given, where that is, and what was written. -/
structure Write where
  given : Text
  place : Text
  content : Text
  deriving DecidableEq, Repr

/-- What was done, each list in order. -/
structure Journal where
  writes : List Write
  createdDirectories : List Text
  commands : List Command
  messages : List (Level × Text)
  printed : Text
  deriving DecidableEq, Repr

def Journal.empty : Journal := ⟨[], [], [], [], []⟩

/-! ## Sessions -/

/-- How an external program answers. -/
inductive Answer
  | output (content : Content)
  | failure
  | noProgram
  deriving DecidableEq, Repr

structure Session where
  tree : FileTree
  workingDirectory : Text
  processors : Nat
  /-- the answers of the external programs, in the order of the calls -/
  answers : List Answer
  /-- messages below this level are not recorded -/
  threshold : Level
  journal : Journal
  /-- what a line does to the tree when the shell carries it out -/
  shell : Text → FileTree → FileTree := fun _ tree => tree

/-- An action on a session. -/
abbrev Action := ExceptT Failure (StateM Session)

namespace Session

def locate (s : Session) (path : Text) : Text := Path.absolute s.workingDirectory path

/-- The tree after a command: a search leaves it as it is. -/
def treeAfter (s : Session) : Command → FileTree
  | .words _ => s.tree
  | .shell line => s.shell line s.tree

end Session

namespace Action

/-- The value of a computation that may fail. -/
def ofExcept {ε α : Type} (toFailure : ε → Failure) : Except ε α → Action α
  | .ok a => pure a
  | .error e => throw (toFailure e)

/-- Runs an action and keeps its failure as a value. -/
def attempt {α : Type} (a : Action α) : Action (Except Failure α) :=
  fun s => let (result, after) := a.run.run s; (.ok result, after)

/-! ## Messages -/

def record (f : Journal → Journal) : Action Unit :=
  modify fun s => { s with journal := f s.journal }

/-- Records a message, if its level reaches the threshold. -/
def say (level : Level) (message : Text) : Action Unit := do
  if (← get).threshold.rank ≤ level.rank then
    record fun j => { j with messages := j.messages ++ [(level, message)] }

def print (text : Text) : Action Unit := record fun j => { j with printed := j.printed ++ text }

def printLine (line : Text) : Action Unit := print (line ++ ['\n'])

/-! ## Files -/

/-- The text of a file. The empty path names no file. -/
def readText (path : Text) : Action Text := do
  if path = [] then throw (.badPath .noSuchFile path)
  let s ← get
  match s.tree.read (s.locate path) with
  | .error fault => throw (.badPath fault path)
  | .ok (.bytes _) => throw .undecodable
  | .ok (.text t) => pure t

/-- Writes a text to a file. -/
def writeText (path content : Text) : Action Unit := do
  let s ← get
  match s.tree.write (s.locate path) (.text content) with
  | .error fault => throw (.badPath fault path)
  | .ok tree =>
    set { s with tree }
    record fun j => { j with writes := j.writes ++ [⟨path, s.locate path, content⟩] }

/-- Creates a directory whose parent exists; `false` if something is there already. -/
def makeDirectory (path : Text) : Action Bool := do
  let s ← get
  let place := s.locate path
  if s.tree.contains place then pure false
  else match s.tree.addDirectory place with
    | .error fault => throw (.badPath fault path)
    | .ok tree =>
      set { s with tree }
      record fun j => { j with createdDirectories := j.createdDirectories ++ [place] }
      pure true

/-- Whether there is a file or directory at the path. -/
def pathExists (path : Text) : Action Bool := do
  let s ← get
  pure (path ≠ [] && s.tree.contains (s.locate path))

/-- Creates a directory and all that are missing above it; `false` if something is there already. A
slash at the end of the path is not taken for a component. -/
def makeDirectories (path : Text) : Action Bool := do
  let above := Path.parent (Path.withoutEndSlash path)
  let name := Path.baseName (Path.withoutEndSlash path)
  if _h : above ≠ [] ∧ name ≠ [] then
    if ← pathExists above then makeDirectory path
    else
      let _ ← makeDirectories above
      if name = ['.'] then pure true else makeDirectory path
  else makeDirectory path
termination_by path.length
decreasing_by
  have hparts := Path.length_parent_add_length_baseName_le (Path.withoutEndSlash path)
  have hbare := Path.length_withoutEndSlash_le path
  have hpos : 0 < (Path.baseName (Path.withoutEndSlash path)).length := List.length_pos_iff.mpr _h.2
  omega

/-! ## External programs -/

/-- Takes the next answer; when there are no more, programs fail. -/
def nextAnswer : Action Answer := do
  let s ← get
  match s.answers with
  | [] => pure .failure
  | a :: rest => set { s with answers := rest }; pure a

/-- Calls an external program and gives the words of its output; a program that fails has none. -/
def call (command : Command) : Action (List Text) := do
  record fun j => { j with commands := j.commands ++ [command] }
  modify fun s => { s with tree := s.treeAfter command }
  match ← nextAnswer, command with
  | .output (.text t), _ => pure (Text.words t)
  | .output (.bytes _), _ => throw .undecodable
  | .failure, _ => pure []
  | .noProgram, .words (program :: _) => throw (.badPath .noSuchFile program)
  | .noProgram, _ => pure []

end Action

end NlsBundle
