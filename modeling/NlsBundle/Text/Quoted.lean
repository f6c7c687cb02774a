import NlsBundle.Text.Basic
import NlsBundle.Text.Printable

/-!
# Quoted texts

How a path or an argument is shown inside a message: between single quotes, or between double quotes
if it has a single quote and no double quote. The quote and the backslash are escaped by a
backslash, line ends and tabs have escapes of their own, and every other character that is not
printable is shown by its code point.
-/

namespace NlsBundle.Text

/-- The lower case hexadecimal digits of a number, filled up with zeros to the given width. -/
def hexadecimal (width n : Nat) : Text :=
  let digits := Nat.toDigits 16 n
  List.replicate (width - digits.length) '0' ++ digits

/-- A character as it is shown between the given quotes. -/
def escapeChar (quote c : Char) : Text :=
  if c = quote ∨ c = '\\' then ['\\', c]
  else if c = '\n' then ['\\', 'n']
  else if c = '\r' then ['\\', 'r']
  else if c = '\t' then ['\\', 't']
  else if isPrintable c then [c]
  else if c.toNat < 0x100 then '\\' :: 'x' :: hexadecimal 2 c.toNat
  else if c.toNat < 0x10000 then '\\' :: 'u' :: hexadecimal 4 c.toNat
  else '\\' :: 'U' :: hexadecimal 8 c.toNat

/-- The quote that needs the least escaping: the double quote is taken only for a text with a single
quote and without a double quote. -/
def chooseQuote (t : Text) : Char := if '\'' ∈ t ∧ '"' ∉ t then '"' else '\''

/-- The text between quotes. -/
def quoted (t : Text) : Text :=
  let quote := chooseQuote t
  quote :: t.flatMap (escapeChar quote) ++ [quote]

end NlsBundle.Text
