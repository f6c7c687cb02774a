import NlsBundle.CommandLine.Programs

/-!
# The executable

The first argument says which program is meant, `convert` or `setup`; the others are its command
line. The outputs of the search programs are read from standard input, in the order of the calls and
with a line `--` between two of them. The files that they name are loaded, the run is carried out in
memory, and then its directories and files are written. The command that packs the archive is shown,
not run. Printed text goes to standard output, all else to standard error.
-/

namespace NlsBundle.Main

/-- The outputs in a transcript, divided by lines that hold the separator alone. -/
def outputsOf (transcript : Text) : List Text :=
  let step (line : Text) (outputs : List Text) : List Text :=
    if Text.trim line = ['-', '-'] then [] :: outputs
    else match outputs with
      | [] => [line]
      | output :: rest => (line ++ output) :: rest
  (Text.lines transcript).foldr step [[]]

/-- The content of bytes: a text, if they are one. -/
def contentOf (bytes : ByteArray) : Content :=
  match String.fromUTF8? bytes with
  | some s => .text s.toList
  | none => .bytes bytes.toList

/-- The paths whose files a run may look at. -/
def pathsOf (workingDirectory : Text) (arguments outputs : List Text) : List Text :=
  let settings :=
    arguments.map fun a => Path.join (Path.join a Settings.directoryName) Settings.fileName
  ((outputs.flatMap Text.words ++ settings).map (Path.absolute workingDirectory)).eraseDups

def loadFile (path : Text) : IO (Option (Text × Content)) := do
  try
    let bytes ← IO.FS.readBinFile (String.ofList path)
    return some (path, contentOf bytes)
  catch _ => return none

def isDirectory (path : Text) : IO Bool := do
  try
    (← IO.FS.realPath (String.ofList path)).isDir
  catch _ => return false

def load (arguments : List Text) (transcript : Text) : IO Session := do
  let workingDirectory := (← IO.currentDir).toString.toList
  let outputs := outputsOf transcript
  let files ← (pathsOf workingDirectory arguments outputs).filterMapM loadFile
  let directories ← (arguments.map (Path.absolute workingDirectory)).filterM isDirectory
  return {
    tree := .ofListing files (workingDirectory :: directories)
    workingDirectory
    processors := 1
    answers := outputs.map fun output => .output (.text output)
    threshold := .warning
    journal := .empty }

/-- Carries out what the journal of a run says. -/
def store (journal : Journal) : IO Unit := do
  for directory in journal.createdDirectories do
    IO.FS.createDirAll (String.ofList directory)
  for w in journal.writes do
    IO.FS.writeFile (String.ofList w.place) (String.ofList w.content)
  for (_, message) in journal.messages do
    IO.eprintln (String.ofList message)
  for command in journal.commands do
    if let .shell line := command then IO.eprintln (String.ofList line)
  IO.print (String.ofList journal.printed)

/-- Says why a run stopped, and gives the status of the program. -/
def statusOf : Except Failure Unit → IO UInt32
  | .ok () => return 0
  | .error failure => do
    IO.eprintln (String.ofList (failure.message.getD "the input is not understood".toList))
    match failure with
    | .exit status _ => return status.toUInt32
    | _ => return 1

/-- Carries out an action with the given threshold for messages. -/
def perform (threshold : Level) (action : List Text → Action Unit) (arguments : List Text) :
    IO UInt32 := do
  let transcript ← (← IO.getStdin).readToEnd
  let session ← load arguments transcript.toList
  let (outcome, after) := (action arguments).run.run { session with threshold }
  store after.journal
  statusOf outcome

end NlsBundle.Main

open NlsBundle in
def main : List String → IO UInt32
  | "convert" :: rest => Main.perform .warning CommandLine.conversionMain (rest.map String.toList)
  | "setup" :: rest => Main.perform .info CommandLine.setupMain (rest.map String.toList)
  | _ => do
    IO.eprintln "usage: (convert | setup) ..."
    return 2
