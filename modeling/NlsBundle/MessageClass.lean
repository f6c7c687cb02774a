import NlsBundle.Text.Basic
import NlsBundle.Text.Blank
import NlsBundle.Text.Line

/-!
# Adapting message classes

A message class gives up its base class and its static block, and gets a resolver for its bundle and
a look-up method instead. The steps are edits of the text of the class: removal of its declaration
lines, the resolver in place of the static block, imports before the import of the base class, the
look-up method at the end of the last class, and removal of superfluous blank lines.
-/

namespace NlsBundle.MessageClass

/-! ## Declaration lines -/

/-- The lines that stay when the given lines are removed, wherever they stand. -/
def keptLines (removed : List Text) (content : Text) : List Text :=
  (Text.lines content).filter (· ∉ removed)

/-- The text without the given lines. -/
def removeLines (removed : List Text) (content : Text) : Text := (keptLines removed content).flatten

/-- Whether the text has any of the given lines. -/
def hasAnyLine (lines : List Text) (content : Text) : Bool := (Text.lines content).any (· ∈ lines)

/-! ## The resolver -/

def resolverField : Text :=
  String.toList
    "private static final IMessageResolver MSG = new ResourceBundleMessageResolver(BUNDLE_NAME);"

def staticBlockStart : Text := "static \x7b".toList

/-- Puts the resolver in place of the first static block, which is taken to end at the next closing
brace. -/
def replaceStaticBlock? (content : Text) : Option Text := do
  let (before, inside) ← Text.cut? staticBlockStart content
  let (_, rest) ← Text.cut? ['}'] inside
  some (before ++ resolverField ++ rest)

/-! ## Imports -/

def baseClassImport : Text := "import org.eclipse.osgi.util.NLS".toList

def resolverImports : List Text :=
  ["import net.disy.commons.core.locale.IMessageResolver".toList,
   "import net.disy.commons.core.locale.ResourceBundleMessageResolver".toList,
   "import java.util.MissingResourceException".toList]

/-- The imports of the resolver, one to a line and with an empty line after them. -/
def importBlock : Text := Text.join ";\n".toList resolverImports ++ ";\n\n".toList

/-- Inserts the imports of the resolver before the first occurrence of an import. -/
def addImports? (content existingImport : Text) : Option Text :=
  (Text.cut? existingImport content).map fun (before, rest) =>
    before ++ importBlock ++ existingImport ++ rest

/-! ## The look-up method -/

def lookupMethod : Text :=
  String.toList
    "\n  public static String getString(String key) \x7b\n    return MSG.getString(key);\n  \x7d"

def classEnd : Text := "\n\x7d".toList

/-- Inserts a block before the last closing brace that stands at the beginning of a line. -/
def addToLastClass? (content block : Text) : Option Text :=
  (Text.cutLast? classEnd content).map fun (before, rest) => before ++ block ++ classEnd ++ rest

/-! ## Blank lines -/

/-- Keeps the lines that are not superfluous. A blank line is superfluous after two blank lines, and
at the end already after one; the flags say whether the two lines before were blank, the nearer one
last. -/
def dropSuperfluous (blankBefore2 blankBefore1 : Bool) : List Text → List Text
  | [] => []
  | [line] => if blankBefore1 && Text.allBlank line then [] else [line]
  | line :: next :: rest =>
    let kept := dropSuperfluous blankBefore1 (Text.allBlank line) (next :: rest)
    if blankBefore2 && blankBefore1 && Text.allBlank line then kept else line :: kept

/-- Allows at most two blank lines in a row. -/
def cleanBlankLines (content : Text) : Text :=
  Text.join ['\n'] (dropSuperfluous false false (Text.splitWhere (· = '\n') content))

/-! ## The whole class -/

/-- What a class lacks that cannot be adapted. -/
inductive Error
  | noStaticBlock
  | noBaseClassImport
  | noClassEnd
  deriving DecidableEq, Repr

def baseClassClause : Text := " extends NLS".toList

/-- Adapts a class whose declaration lines have been removed. -/
def adapt (content : Text) : Except Error Text :=
  match replaceStaticBlock? content with
  | none => .error .noStaticBlock
  | some resolved =>
    match addImports? resolved baseClassImport with
    | none => .error .noBaseClassImport
    | some imported =>
      match addToLastClass? imported lookupMethod with
      | none => .error .noClassEnd
      | some complete => .ok (Text.replaceAll (cleanBlankLines complete) baseClassClause [])

end NlsBundle.MessageClass
