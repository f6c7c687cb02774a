import NlsBundle.Path
import NlsBundle.Pattern.Match
import NlsBundle.Text.Blank
import NlsBundle.Text.Line

/-!
# Message declarations

What a message class declares: its package, its name, and its message variables, one to a line.
-/

namespace NlsBundle.Declaration

/-- Why a line names no variable. -/
inductive Error
  /-- no word of the line is the type `String` -/
  | noType
  /-- the type is the last word of the line -/
  | noName
  deriving DecidableEq, Repr

/-- The word after the first `String`, without semicolons. -/
def nameAfterType : List Text → Except Error Text
  | [] => .error .noType
  | w :: ws =>
    if w = "String".toList then
      match ws with
      | [] => .error .noName
      | name :: _ => .ok (Text.without name ';')
    else nameAfterType ws

/-- The variable that a line declares. -/
def variableName (line : Text) : Except Error Text := nameAfterType (Text.words line)

/-- The words of a declaration, in this order and with anything between them. -/
def declarationPattern : Pattern :=
  .sequence [.literal "public".toList, .anyRun, .literal "static".toList, .anyRun,
    .literal "String".toList]

/-- A line declares a message variable if it has the words of a declaration and no parenthesis,
which would make it a method. -/
def isDeclaration (line : Text) : Bool := declarationPattern.occursIn line && '(' ∉ line

/-- The lines of a class that declare message variables, with their line ends. -/
def declarationLines (content : Text) : List Text := (Text.lines content).filter isDeclaration

/-- The package that a line declares, if it does. -/
def packageOfLine? (line : Text) : Option Text :=
  (Text.after? "package ".toList line).map fun rest => Text.trim (Text.without rest ';')

/-- The package named by the first package declaration. -/
def package? (content : Text) : Option Text := (Text.lines content).findSome? packageOfLine?

/-- The name of the class in a file: the name of the file without its extension. -/
def className (path : Text) : Text := Path.stem (Path.baseName path)

end NlsBundle.Declaration
