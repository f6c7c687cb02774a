import NlsBundle.Text.Basic

/-!
# Shell words

Division of a command line into words by the rules of the shell: blanks separate words, single
quotes keep everything between them, double quotes keep everything but a backslash before a double
quote or a backslash, and outside of quotes a backslash keeps the next character. Adjacent parts
make one word, and quotes make a word even if there is nothing between them.
-/

namespace NlsBundle.ShellWords

/-- Why a command line has no words. -/
inductive Error
  | unclosedQuote
  | danglingEscape
  deriving DecidableEq, Repr

def Error.message : Error → Text
  | .unclosedQuote => "No closing quotation".toList
  | .danglingEscape => "No escaped character".toList

/-- Where the reader is. -/
inductive Mode
  /-- outside of quotes -/
  | plain
  /-- after a backslash outside of quotes -/
  | escape
  /-- between single quotes -/
  | single
  /-- between double quotes -/
  | double
  /-- after a backslash between double quotes -/
  | doubleEscape
  deriving DecidableEq, Repr

def isSeparator (c : Char) : Bool := c = ' ' || c = '\t' || c = '\r' || c = '\n'

/-- Puts the word that is being read, if there is one, before the words that follow. -/
def emit : Option Text → List Text → List Text
  | none, words => words
  | some word, words => word :: words

/-- Adds a character to the word that is being read. -/
def extend (word : Option Text) (c : Char) : Option Text := some (word.getD [] ++ [c])

/-- Reads the rest of a command line after the part of a word read so far; `none` is the place
between words. -/
def splitFrom : Mode → Option Text → Text → Except Error (List Text)
  | .plain, word, [] => .ok (emit word [])
  | .single, _, [] => .error .unclosedQuote
  | .double, _, [] => .error .unclosedQuote
  | .escape, _, [] => .error .danglingEscape
  | .doubleEscape, _, [] => .error .danglingEscape
  | .plain, word, c :: t =>
    if isSeparator c then emit word <$> splitFrom .plain none t
    else if c = '\\' then splitFrom .escape (some (word.getD [])) t
    else if c = '\'' then splitFrom .single (some (word.getD [])) t
    else if c = '"' then splitFrom .double (some (word.getD [])) t
    else splitFrom .plain (extend word c) t
  | .escape, word, c :: t => splitFrom .plain (extend word c) t
  | .single, word, c :: t =>
    if c = '\'' then splitFrom .plain word t else splitFrom .single (extend word c) t
  | .double, word, c :: t =>
    if c = '"' then splitFrom .plain word t
    else if c = '\\' then splitFrom .doubleEscape word t
    else splitFrom .double (extend word c) t
  | .doubleEscape, word, c :: t =>
    if c = '"' ∨ c = '\\' then splitFrom .double (extend word c) t
    else splitFrom .double (extend (extend word '\\') c) t

/-- The words of a command line. -/
def split (line : Text) : Except Error (List Text) := splitFrom .plain none line

end NlsBundle.ShellWords
