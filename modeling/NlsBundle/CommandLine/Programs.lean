import NlsBundle.CommandLine.Parse
import NlsBundle.Conversion
import NlsBundle.Setup

/-!
# The two programs

The command lines of the conversion and of the setup, and what the programs do with them.
-/

namespace NlsBundle.CommandLine

/-! ## Conversion -/

def helpOption : OptionSpec := ⟨.help, ["-h".toList, "--help".toList], false⟩

def conversionProgram : Program where
  options :=
    [helpOption,
     ⟨.debug, ["--debug".toList], false⟩,
     ⟨.info, ["--info".toList], false⟩,
     ⟨.singleProcess, ["--singleprocess".toList], false⟩,
     ⟨.test, ["--test".toList], false⟩]
  helpText := Text.join ['\n'] (List.map String.toList
    ["usage: convert_project.py [-h] [--debug] [--info] [--singleprocess] [--test]",
     "                          module_paths [module_paths ...]",
     "",
     "positional arguments:",
     "  module_paths     The path to the directory containing the module to convert",
     "",
     "options:",
     "  -h, --help       show this help message and exit",
     "  --debug          Set log level to debug",
     "  --info           Set log level to info",
     "  --singleprocess  Do not use multiprocessing",
     "  --test           Run tests",
     ""])

/-! ## Setup -/

def setupProgram : Program where
  options :=
    [helpOption,
     ⟨.debug, ["--debug".toList], false⟩,
     ⟨.info, ["--info".toList], false⟩,
     ⟨.parentDirectory, ["-p".toList, "--parent-directory".toList], true⟩,
     ⟨.archivePath, ["-t".toList, "--target-tarball-path".toList], true⟩,
     ⟨.test, ["--test".toList], false⟩]
  helpText := Text.join ['\n'] (List.map String.toList
    ["usage: eclipse_jinto_setup.py [-h] [--debug] [--info] [-p PARENT_DIRECTORY]",
     "                              [-t TARGET_TARBALL_PATH] [--test]",
     "                              module_paths [module_paths ...]",
     "",
     "positional arguments:",
     "  module_paths          The paths to the directories of the projects to",
     "                        process (a project is a folder which can have a",
     "                        .settings folder that gets recognized in Eclipse)",
     "",
     "options:",
     "  -h, --help            show this help message and exit",
     "  --debug               Set log level to debug",
     "  --info                Set log level to info",
     "  -p PARENT_DIRECTORY, --parent-directory PARENT_DIRECTORY",
     "                        The path to the parent directory of the modules, files",
     "                        will be stored relative to this",
     "  -t TARGET_TARBALL_PATH, --target-tarball-path TARGET_TARBALL_PATH",
     "                        The path to the tarball to create",
     "  --test                Run tests",
     ""])

/-! ## Running -/

/-- The status of a program that rejects its command line. -/
def usageStatus : Nat := 2

/-- Reads the command line of a program. Help is printed, and both help and a rejected command line
end the program. -/
def readArguments (p : Program) (arguments : List Text) : Action Arguments :=
  match parse p arguments with
  | .ok a => pure a
  | .error .help => do
    Action.print p.helpText
    throw (.exit 0 [])
  | .error (.usage e) => throw (.exit usageStatus e.message)

/-- The options of a conversion run. -/
def conversionOptions (a : Arguments) : Conversion.Options := ⟨a.modulePaths, a.has .singleProcess⟩

/-- The options of a setup run. -/
def setupOptions (a : Arguments) : Setup.Options :=
  ⟨a.modulePaths, a.value? .parentDirectory, a.value? .archivePath⟩

/-- A conversion run with the given arguments. -/
def runConversion (arguments : List Text) : Action Conversion.Report := do
  Conversion.run (conversionOptions (← readArguments conversionProgram arguments))

/-- A setup run with the given arguments. -/
def runSetup (arguments : List Text) : Action Unit := do
  Setup.run (setupOptions (← readArguments setupProgram arguments))

/-- Sets the threshold for messages; the option for less detail wins. -/
def setThreshold (a : Arguments) : Action Unit := do
  if a.has .debug then modify fun s => { s with threshold := .debug }
  if a.has .info then modify fun s => { s with threshold := .info }

/-- The conversion program. -/
def conversionMain (arguments : List Text) : Action Unit := do
  let a ← readArguments conversionProgram arguments
  setThreshold a
  if !a.has .test then
    let _ ← Conversion.run (conversionOptions a)

/-- The setup program. -/
def setupMain (arguments : List Text) : Action Unit := do
  let a ← readArguments setupProgram arguments
  setThreshold a
  if !a.has .test then Setup.run (setupOptions a)

end NlsBundle.CommandLine
