import NlsBundle.Session

/-!
# Searching for source files

Which source files a run is about is found out by external programs: message classes by what they
contain, and all source files by their names. The command lines are written for the shell, and a
path is put into them as it is.
-/

namespace NlsBundle.Search

/-- The search for classes that extend the base class of message classes. -/
def messageClassesLine (modulePath : Text) : Text :=
  "ag 'class.*extends.*NLS' -G '.*java$' ".toList ++ modulePath ++ " -l".toList

/-- The search for classes that have a resolver. -/
def resolverClassesLine (modulePath : Text) : Text :=
  "ag 'static.*final.*IMessageResolver.*MSG.*=' -G '.*java$' ".toList ++ modulePath ++ " -l".toList

/-- The search for all source files. -/
def sourceFilesLine (modulePath : Text) : Text :=
  "find ".toList ++ modulePath ++ " -iname \"*.java\"".toList

/-- Divides a command line into words, calls the program, and gives the paths it prints. -/
def run (line : Text) : Action (List Text) := do
  let words ← Action.ofExcept .commandLine (ShellWords.split line)
  Action.call (.words words)

def messageClasses (modulePath : Text) : Action (List Text) := run (messageClassesLine modulePath)

def resolverClasses (modulePath : Text) : Action (List Text) := run (resolverClassesLine modulePath)

/-- All source files but the excluded ones. -/
def sourceFiles (modulePath : Text) (excluded : List Text) : Action (List Text) := do
  let paths ← run (sourceFilesLine modulePath)
  pure (paths.filter (· ∉ excluded))

end NlsBundle.Search
