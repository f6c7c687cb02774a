import NlsBundle.Rule
import NlsBundle.Usage.Splice

/-!
# Converting usages

A source file uses a message variable through its class, through a static import of the variable, or
through a static import of everything in the class. The rules are applied one after the other to the
whole text. What has been replaced once, be it an import, a variable or a qualified use, is not
replaced again. Imports of everything are needed to find the uses of all variables of a class, so
they are replaced last.
-/

namespace NlsBundle.Usage

/-! ## Imports -/

/-- The import of the class. -/
def classImport (r : Rule) : Text := "import ".toList ++ r.package ++ '.' :: r.className

/-- The static import of the variable alone. -/
def variableImport (r : Rule) : Text := "import static ".toList ++ r.package ++ '.' :: r.usage

/-- The static import of everything in the class. -/
def starImport (r : Rule) : Text :=
  "import static ".toList ++ r.package ++ '.' :: r.className ++ ".*".toList

/-- Puts a backslash before each of the given characters. -/
def escapeChars (special : List Char) (t : Text) : Text :=
  t.flatMap fun c => if c ∈ special then ['\\', c] else [c]

def variableImportPattern (r : Rule) : Except Error Pattern :=
  pattern (escapeChars ['.'] (variableImport r))

def starImportPattern (r : Rule) : Except Error Pattern :=
  pattern (escapeChars ['.', '*'] (starImport r))

/-! ## Steps -/

/-- A text under conversion, and everything that has been replaced in it. -/
structure Progress where
  content : Text
  replaced : List Text
  deriving DecidableEq, Repr

namespace Progress

/-- Replaces `piece` everywhere and remembers it. -/
def replace (s : Progress) (piece new : Text) : Progress :=
  ⟨Text.replaceAll s.content piece new, piece :: s.replaced⟩

/-- Splices the rule's call into the text, unless that was done before for a variable of this
name. -/
def splice (s : Progress) (r : Rule) : Except Error Progress :=
  if r.variableName ∈ s.replaced then .ok s
  else (spliceVariable s.content r.variableName r.call).map fun t =>
    ⟨t, r.variableName :: s.replaced⟩

/-- Where the variable has an import of its own. -/
def convertVariableImport (p : Pattern) (r : Rule) (s : Progress) : Except Error Progress :=
  if variableImport r ∉ s.replaced ∧ p.occursIn s.content then
    (s.replace (variableImport r) (classImport r)).splice r
  else .ok s

/-- Where everything in the class is imported. -/
def convertStarUses (p : Pattern) (r : Rule) (s : Progress) : Except Error Progress :=
  if p.occursIn s.content then s.splice r else .ok s

/-- Where the variable is used through its class. -/
def convertQualified (r : Rule) (s : Progress) : Progress :=
  if r.usage ∉ s.replaced ∧ Text.contains s.content r.usage then s.replace r.usage r.call else s

/-- Applies one rule. -/
def apply (s : Progress) (r : Rule) : Except Error Progress := do
  let variableMatcher ← variableImportPattern r
  let starMatcher ← starImportPattern r
  let s ← s.convertVariableImport variableMatcher r
  let s ← s.convertStarUses starMatcher r
  .ok (s.convertQualified r)

/-- Replaces the import of everything in the rule's class. -/
def applyStarImport (s : Progress) (r : Rule) : Except Error Progress := do
  let starMatcher ← starImportPattern r
  .ok (if starMatcher.occursIn s.content ∧ starImport r ∉ s.replaced then
    s.replace (starImport r) (classImport r) else s)

end Progress

/-- Converts all usages in a text. -/
def convert (content : Text) (rules : List Rule) : Except Error Text := do
  let s ← rules.foldlM Progress.apply ⟨content, []⟩
  let s ← rules.foldlM Progress.applyStarImport s
  .ok s.content

end NlsBundle.Usage
