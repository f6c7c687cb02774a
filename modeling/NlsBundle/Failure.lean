import NlsBundle.Rule
import NlsBundle.Settings
import NlsBundle.ShellWords
import NlsBundle.Text.Quoted
import NlsBundle.Usage.Splice

/-!
# Failures

Why a run stops, and how it says so.
-/

namespace NlsBundle

/-- What the operating system says about a path. -/
inductive PathFault
  | noSuchFile
  | notADirectory
  | isADirectory
  deriving DecidableEq, Repr

def PathFault.message : PathFault → Text
  | .noSuchFile => "[Errno 2] No such file or directory: ".toList
  | .notADirectory => "[Errno 20] Not a directory: ".toList
  | .isADirectory => "[Errno 21] Is a directory: ".toList

/-- Why a run stops. -/
inductive Failure
  /-- the path as it was given -/
  | badPath (fault : PathFault) (path : Text)
  /-- bytes that are no text -/
  | undecodable
  | commandLine (e : ShellWords.Error)
  | noPackage (path : Text)
  | incompleteClass (missing : BundleEntry.Missing) (path : Text)
  | rules (e : Rule.BuildError)
  | usage (e : Usage.Error)
  /-- a message class without the import of its base class -/
  | noBaseClassImport
  /-- a message class without a closing brace at the beginning of a line, or without a static
  block -/
  | notFound
  /-- created files are reported below a parent directory that was not given -/
  | noParentDirectory
  /-- the program ends by itself, with a status and what it says about that -/
  | exit (status : Nat) (message : Text)
  deriving DecidableEq, Repr

/-- A sentence with a path, shown as a pair. -/
def pairMessage (sentence : String) (path : Text) : Text :=
  "('".toList ++ sentence.toList ++ "', ".toList ++ Text.quoted path ++ ")".toList

def Declaration.Error.message : Declaration.Error → Text
  | .noType => "invalid line: did not contain String".toList
  | .noName => "list index out of range".toList

def Rule.BuildError.message : Rule.BuildError → Text
  | .badLine e => e.message
  | .unknownPackage path => Text.quoted path

/-- What is said about a failure. Bad patterns and bytes that are no text are reported without
words. -/
def Failure.message : Failure → Option Text
  | .badPath fault path => some (fault.message ++ Text.quoted path)
  | .undecodable => none
  | .commandLine e => some e.message
  | .noPackage path => some (pairMessage "File %s has no package definition!" path)
  | .incompleteClass .package path =>
      some (pairMessage "File %s misses package identifier: %s." path)
  | .incompleteClass .properties path =>
      some (pairMessage "File %s misses properties identifier: %s." path)
  | .incompleteClass .className path =>
      some (pairMessage "File %s misses class identifier: %s." path)
  | .rules e => some e.message
  | .usage _ => none
  | .noBaseClassImport => some "name 'filepath' is not defined".toList
  | .notFound => some "substring not found".toList
  | .noParentDirectory => some "expected str, bytes or os.PathLike object, not NoneType".toList
  | .exit _ message => some message

end NlsBundle
