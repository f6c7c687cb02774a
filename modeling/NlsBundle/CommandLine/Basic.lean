import NlsBundle.Pattern.Match
import NlsBundle.Text.Quoted

/-!
# Command lines

What a program accepts on its command line: options, which begin with a hyphen, and module paths. An
option stands alone or takes a value. This module has the types, and what is said about a command
line that is not accepted.
-/

namespace NlsBundle.CommandLine

/-- What an option is about. -/
inductive Setting
  | help
  | debug
  | info
  | test
  | singleProcess
  | parentDirectory
  | archivePath
  deriving DecidableEq, Repr

/-- An option with the names it can be given by. -/
structure OptionSpec where
  setting : Setting
  names : List Text
  takesValue : Bool
  deriving DecidableEq, Repr

/-- The names of an option as they are shown in messages. -/
def OptionSpec.shownName (o : OptionSpec) : Text := Text.join ['/'] o.names

/-- A program: its options and its help text. -/
structure Program where
  options : List OptionSpec
  helpText : Text
  deriving DecidableEq, Repr

namespace Program

/-- All names of options, in order, each with its option. -/
def optionNames (p : Program) : List (Text × OptionSpec) :=
  p.options.flatMap fun o => o.names.map fun name => (name, o)

/-- The option of exactly this name. -/
def option? (p : Program) (name : Text) : Option OptionSpec := p.optionNames.lookup name

end Program

/-- Why a command line is not accepted. -/
inductive UsageError
  | ambiguous (argument : Text) (names : List Text)
  | ignoredValue (o : OptionSpec) (value : Text)
  | missingValue (o : OptionSpec)
  | noModulePaths
  | unrecognized (arguments : List Text)
  deriving DecidableEq, Repr

def UsageError.message : UsageError → Text
  | .ambiguous argument names =>
    "ambiguous option: ".toList ++ argument ++ " could match ".toList ++ Text.join ", ".toList names
  | .ignoredValue o value =>
    "argument ".toList ++ o.shownName ++ ": ignored explicit argument ".toList ++ Text.quoted value
  | .missingValue o => "argument ".toList ++ o.shownName ++ ": expected one argument".toList
  | .noModulePaths => "the following arguments are required: module_paths".toList
  | .unrecognized arguments => "unrecognized arguments: ".toList ++ Text.join [' '] arguments

/-- Why a program does not start its work. -/
inductive Stop
  /-- help was asked for -/
  | help
  | usage (e : UsageError)
  deriving DecidableEq, Repr

/-- An accepted command line: the module paths, and the options in the order they were given. -/
structure Arguments where
  modulePaths : List Text
  given : List (Setting × Option Text)
  deriving DecidableEq, Repr

namespace Arguments

def has (a : Arguments) (s : Setting) : Bool := a.given.any (·.1 = s)

/-- The value of an option; the last one given counts. -/
def value? (a : Arguments) (s : Setting) : Option Text := (a.given.reverse.lookup s).join

end Arguments

end NlsBundle.CommandLine
