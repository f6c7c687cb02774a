import NlsBundle.Text.Basic
import NlsBundle.Text.Blank
import NlsBundle.Text.Line

/-!
# Editor settings

The settings of a module tell the editor, for each message class, by which method it looks up
messages and in which bundle it finds them. The settings are one line of escaped markup with an
entry per class, and a line with the version of the format.
-/

namespace NlsBundle

/-- A message class and the bundle with its messages. -/
structure BundleEntry where
  /-- the class with its package -/
  accessor : Text
  /-- the name of the bundle -/
  properties : Text
  deriving DecidableEq, Repr

namespace BundleEntry

/-! ## Markup -/

/-- The markup of one entry. -/
def render (e : BundleEntry) : Text :=
  "<resourceBundleReference resourceBundleName\\=\"".toList ++ e.properties ++
  "\">\\n<accessor typeName\\=\"".toList ++ e.accessor ++
  "\">\\n<methodReference methodName\\=\"getString\">\\n<parameter index\\=\"0\" ".toList ++
  "isSelected\\=\"true\" parameterName\\=\"key\" parameterType\\=\"java.lang.String\"/>".toList ++
  "\\n</methodReference>\\n</accessor>\\n</resourceBundleReference>".toList

/-! ## Reading a message class -/

def bundleDeclaration : Text := "private static final String BUNDLE_NAME".toList

def classDeclaration : Text := "public class ".toList

def packageWord : Text := "package".toList

/-- The package that a line names, if its first word begins like a package declaration. -/
def packageOfLine? (line : Text) : Option Text :=
  if (Text.after? packageWord (Text.trim line)).isSome then
    some (Text.trim (Text.replaceAll (Text.without line ';') packageWord []))
  else none

/-- The bundle name that a line declares: what is left without the words of the declaration, quotes,
equals signs, semicolons and a comment. -/
def bundleOfLine? (line : Text) : Option Text :=
  if Text.contains line bundleDeclaration then
    let value := Text.replaceAll line bundleDeclaration []
    let name := Text.trim (Text.without (Text.without (Text.without value '"') '=') ';')
    if '/' ∈ name then some (Text.trim (name.takeWhile (· ≠ '/'))) else some name
  else none

/-- The class that a line declares, with whatever else stands before the opening brace. -/
def classOfLine? (line : Text) : Option Text :=
  if Text.contains line classDeclaration then
    some (Text.trim (Text.without (Text.replaceAll line classDeclaration []) '{'))
  else none

/-- What a message class lacks. -/
inductive Missing
  | package
  | properties
  | className
  deriving DecidableEq, Repr

/-- Reads the entry of a message class. Each part comes from the first line that has it. -/
def ofClass (content : Text) : Except Missing BundleEntry :=
  let lines := Text.lines (Text.unifyLineEnds content)
  match lines.findSome? packageOfLine?, lines.findSome? bundleOfLine?,
    lines.findSome? classOfLine? with
  | none, _, _ => .error .package
  | _, none, _ => .error .properties
  | _, _, none => .error .className
  | some package, some properties, some className => .ok ⟨package ++ '.' :: className, properties⟩

end BundleEntry

namespace Settings

/-- The text of a settings file. -/
def render (entries : List BundleEntry) : Text :=
  "de.guhsoft.jinto.core.accessorConfiguration=".toList ++
  "<?xml version\\=\"1.0\" encoding\\=\"UTF-8\"?>\\n<root>\\n".toList ++
  Text.join "\\n".toList (entries.map BundleEntry.render) ++
  "\\n</root>\neclipse.preferences.version=1\n".toList

/-- The directory of a module that holds its settings. -/
def directoryName : Text := ".settings".toList

/-- The name of the settings file. -/
def fileName : Text := "de.guhsoft.jinto.core.prefs".toList

end Settings

end NlsBundle
