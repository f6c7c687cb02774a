import NlsBundle.MessageClass
import NlsBundle.Search
import NlsBundle.Usage.Convert

/-!
# Conversion runs

A run finds the message classes of some modules, builds the rules from their declarations, converts
the usages in all other source files, and then adapts the message classes.
-/

namespace NlsBundle.Conversion

/-! ## Files -/

/-- The declaration lines of a message class. -/
def declarationLines (path : Text) : Action (List Text) := do
  pure (Declaration.declarationLines (← Action.readText path))

/-- The package of a message class. -/
def packageOf (path : Text) : Action Text := do
  match Declaration.package? (← Action.readText path) with
  | none => throw (.noPackage path)
  | some package => pure package

/-- Removes lines from a file, which is written in any case, and says whether there was any of
them. -/
def removeLines (path : Text) (lines : List Text) : Action Bool := do
  let content ← Action.readText path
  Action.writeText path (MessageClass.removeLines lines content)
  pure (MessageClass.hasAnyLine lines content)

/-- Converts the usages in a file, which is written only if it changes, and says whether it does. -/
def convertFile (rules : List Rule) (path : Text) : Action Bool := do
  let content ← Action.readText path
  Action.say .info
    ("replacing Message variable access with ResourceBundle calls in ".toList ++ path)
  let converted ← Action.ofExcept .usage (Usage.convert content rules)
  if converted ≠ content then Action.writeText path converted
  pure (converted ≠ content)

/-- Adds the imports of the resolver to a file. -/
def addImports (path : Text) : Action Unit := do
  match MessageClass.addImports? (← Action.readText path) MessageClass.baseClassImport with
  | none => throw .noBaseClassImport
  | some content => Action.writeText path content

/-- Adapts a message class with the given declaration lines, and says whether it changed. A class
without a static block loses its declaration lines and counts as unchanged. -/
def adaptClass (path : Text) (lines : List Text) : Action Bool := do
  Action.say .info ("rewriting Message file ".toList ++ path)
  let removed ← removeLines path lines
  let content ← Action.readText path
  match MessageClass.adapt content with
  | .error .noStaticBlock =>
    Action.say .warning ("No static block found in file ".toList ++ path)
    pure false
  | .error .noBaseClassImport => throw .noBaseClassImport
  | .error .noClassEnd => throw .notFound
  | .ok adapted =>
    let changed := removed || adapted ≠ content
    if changed then Action.writeText path adapted
    pure changed

/-! ## Work lists -/

/-- Deals the items out to `n` lists in turn. -/
def deal {α : Type} (n : Nat) (items : List α) : List (List α) :=
  (List.range n).map fun k =>
    items.zipIdx.filterMap fun (item, i) => if i % n = k then some item else none

/-- Converts the files of one work list. -/
def convertFiles (rules : List Rule) (paths : List Text) : Action (List Bool) :=
  paths.mapM (convertFile rules)

/-- Works on the lists one after the other, and stops at the first failure. -/
def convertInTurn (rules : List Rule) (lists : List (List Text)) : Action (List Bool) := do
  pure (← lists.mapM (convertFiles rules)).flatten

/-- Works on all lists, whatever happens to the others, and then reports the first failure, if
any. -/
def convertPooled (rules : List Rule) (lists : List (List Text)) : Action (List Bool) := do
  let results ← lists.mapM fun paths => Action.attempt (convertFiles rules paths)
  let flags ← results.mapM (Action.ofExcept id)
  pure flags.flatten

/-- The number of work lists for a number of processors. -/
def listCount (processors : Nat) : Nat := 3 * (2 * processors)

/-! ## The run -/

/-- What a conversion run is told. -/
structure Options where
  modulePaths : List Text
  singleProcess : Bool
  deriving DecidableEq, Repr

/-- Which files were changed: those with usages, in the order of the work, and the message
classes. -/
structure Report where
  usages : List Bool
  classes : List Bool
  deriving DecidableEq, Repr

/-- Pairs each path with what is read from it. -/
def readAll {α : Type} (reader : Text → Action α) (paths : List Text) : Action (List (Text × α)) :=
  paths.mapM fun path => do pure (path, ← reader path)

/-- Adds an entry, unless there is one for its path. -/
def addNew {α : Type} (found : List (Text × α)) (entry : Text × α) : List (Text × α) :=
  if (found.lookup entry.1).isSome then found else found ++ [entry]

/-- One entry per path, the first one. -/
def distinct {α : Type} (entries : List (Text × α)) : List (Text × α) := entries.foldl addNew []

/-- Reads the message classes and builds the rules. -/
def plan (classPaths : List Text) : Action (List (Text × List Text) × List Rule) := do
  let lines := distinct (← readAll declarationLines classPaths)
  let packages := distinct (← readAll packageOf classPaths)
  let rules ← Action.ofExcept .rules (Rule.build lines packages)
  pure (lines, rules)

/-- The whole run. -/
def run (options : Options) : Action Report := do
  let modules := options.modulePaths.map (← get).locate
  let classPaths := (← modules.mapM Search.messageClasses).flatten
  let (lines, rules) ← plan classPaths
  let sources := (← modules.mapM fun m => Search.sourceFiles m classPaths).flatten
  let lists := deal (listCount (← get).processors) sources
  let usages ←
    if options.singleProcess then convertInTurn rules lists
    else convertPooled rules lists
  let classes ← classPaths.mapM fun path => adaptClass path ((lines.lookup path).getD [])
  pure ⟨usages, classes⟩

end NlsBundle.Conversion
