import NlsBundle.Search
import NlsBundle.Settings

/-!
# Setup runs

A run writes the editor settings of some modules: for each one it finds the message classes, reads
their entries and writes a settings file, unless there is one. Then it reports the created files and
packs them into an archive.
-/

namespace NlsBundle.Setup

/-! ## Files -/

/-- The entry of the message class in a file. The whole file has to be a text, also the part behind
the lines that make up the entry. -/
def readEntry (path : Text) : Action BundleEntry := do
  Action.ofExcept (fun missing => .incompleteClass missing path)
    (BundleEntry.ofClass (← Action.readText path))

/-- Writes the settings of a module and gives the path of the file; an existing file is left
alone. -/
def writeSettings (modulePath data : Text) : Action (Option Text) := do
  let directory := Path.join modulePath Settings.directoryName
  let path := Path.join directory Settings.fileName
  let _ ← Action.makeDirectories directory
  if ← Action.pathExists path then
    Action.say .error ("Not writing settings file ".toList ++ path ++
      " : file already exists. What would have been written: ".toList ++ data)
    pure none
  else
    Action.writeText path data
    pure (some path)

/-! ## The archive -/

/-- How a path is written in the command; one that is not given is written as a name. -/
def shown (path : Option Text) : Text := path.getD "None".toList

/-- The command that packs files, given relative to a directory, into an archive. -/
def archiveLine (archive : Option Text) (paths : List Text) (directory : Option Text) : Text :=
  "cd \"".toList ++ shown directory ++ "\" && tar -czf \"".toList ++ shown archive ++
    "\" ".toList ++
    Text.join [' '] (paths.map fun path => '"' :: path ++ ['"'])

def createArchive (archive : Option Text) (paths : List Text) (directory : Option Text) :
    Action (List Text) :=
  Action.call (.shell (archiveLine archive paths directory))

/-! ## The run -/

/-- What a setup run is told. -/
structure Options where
  modulePaths : List Text
  parentDirectory : Option Text
  archivePath : Option Text
  deriving DecidableEq, Repr

/-- Writes the settings of one module, and gives the path of a new file as seen from the parent
directory, or from the working directory if no parent directory is given. -/
def setUpModule (parentDirectory : Option Text) (modulePath : Text) : Action (Option Text) := do
  if !(← get).tree.isDirectory modulePath then
    Action.say .warning ("Not a directory ".toList ++ modulePath)
    pure none
  else
    let classPaths ← Search.resolverClasses modulePath
    let entries ← classPaths.mapM readEntry
    if entries = [] then pure none
    else match ← writeSettings modulePath (Settings.render entries) with
      | none => pure none
      | some path =>
        let s ← get
        pure (some (Path.relative s.workingDirectory path (parentDirectory.getD ['.'])))

/-- The created files, one to a line; without a parent directory no file can be reported. -/
def report (parentDirectory : Option Text) (paths : List Text) : Action Unit :=
  match parentDirectory, paths with
  | some directory, _ => Action.printLine (Text.join ['\n'] (paths.map (Path.join directory)))
  | none, [] => Action.printLine []
  | none, _ :: _ => throw .noParentDirectory

/-- The whole run. -/
def run (options : Options) : Action Unit := do
  let modules := options.modulePaths.map (← get).locate
  let created := (← modules.mapM (setUpModule options.parentDirectory)).filterMap id
  Action.say .info "Files created:".toList
  report options.parentDirectory created
  let _ ← createArchive options.archivePath created options.parentDirectory
  pure ()

end NlsBundle.Setup
