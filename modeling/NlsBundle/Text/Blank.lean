import NlsBundle.Text.Basic
import NlsBundle.Text.CharRange

/-!
# Blank characters

The blank characters, and the two operations that look at them: trimming and division into words.
-/

namespace NlsBundle.Text

/-- Spaces, tabs, line ends and the separators of the control and general punctuation blocks. -/
def blankRanges : List (Nat × Nat) :=
  [(0x9, 0xd), (0x1c, 0x20), (0x85, 0x85), (0xa0, 0xa0), (0x1680, 0x1680), (0x2000, 0x200a),
   (0x2028, 0x2029), (0x202f, 0x202f), (0x205f, 0x205f), (0x3000, 0x3000)]

/-- Whether the character separates words. -/
def isBlank (c : Char) : Bool := inRanges blankRanges c

/-- A line is blank if it has no character other than blanks. -/
def allBlank (t : Text) : Bool := t.all isBlank

/-- Drops blanks at both ends. -/
def trim (t : Text) : Text := ((t.dropWhile isBlank).reverse.dropWhile isBlank).reverse

/-- The maximal runs of characters that are not blank, in order. -/
def words (t : Text) : List Text := (splitWhere isBlank t).filter (· ≠ [])

end NlsBundle.Text
