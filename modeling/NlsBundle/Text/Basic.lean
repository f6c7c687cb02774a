/-!
# Texts

A text is a list of characters, so that every function on it is plain recursion on the data. This
module holds the searches and edits that the rest of the library is built from: the first and the
last occurrence of a piece of text, replacement of every occurrence, and division at separator
characters.
-/

namespace NlsBundle

/-- A text is the list of its characters; lengths and positions count characters. -/
abbrev Text := List Char

instance : LawfulBEq Text := List.instLawfulBEq

namespace Text

/-! ## Occurrences -/

/-- What follows `piece` at the front of the text, if the text begins with it. -/
def after? : Text → Text → Option Text
  | [], t => some t
  | _ :: _, [] => none
  | p :: piece, c :: t => if p = c then after? piece t else none

/-- Cuts the text at the first occurrence of `piece`: what stands before it and what stands after
it. -/
def cut? (piece : Text) : Text → Option (Text × Text)
  | [] => if piece = [] then some ([], []) else none
  | c :: t =>
    match after? piece (c :: t) with
    | some rest => some ([], rest)
    | none => (cut? piece t).map fun (before, rest) => (c :: before, rest)

/-- Cuts the text at the last occurrence of `piece`. -/
def cutLast? (piece : Text) : Text → Option (Text × Text)
  | [] => if piece = [] then some ([], []) else none
  | c :: t =>
    match cutLast? piece t with
    | some (before, rest) => some (c :: before, rest)
    | none => (after? piece (c :: t)).map fun rest => ([], rest)

/-- Whether `piece` occurs somewhere in the text. -/
def contains (t piece : Text) : Bool := (cut? piece t).isSome

/-! ## Replacement -/

/-- Replaces occurrences of a non-empty `piece` from left to right; the first `skip` characters
belong to an occurrence that has been replaced already. -/
def replaceFrom (piece new : Text) : Nat → Text → Text
  | _, [] => []
  | skip + 1, _ :: t => replaceFrom piece new skip t
  | 0, c :: t =>
    if (after? piece (c :: t)).isSome then new ++ replaceFrom piece new (piece.length - 1) t
    else c :: replaceFrom piece new 0 t

/-- Replaces every occurrence of `piece` by `new`, from left to right and without overlaps. The
empty piece occurs before each character and at the end. -/
def replaceAll (t piece new : Text) : Text :=
  if piece = [] then t.foldr (fun c rest => new ++ c :: rest) new
  else replaceFrom piece new 0 t

/-- Drops every occurrence of the character. -/
def without (t : Text) (c : Char) : Text := t.filter (· ≠ c)

/-! ## Division -/

/-- The pieces between the characters for which `isSeparator` holds; there is always one piece more
than separators. -/
def splitWhere (isSeparator : Char → Bool) : Text → List Text
  | [] => [[]]
  | c :: t =>
    if isSeparator c then [] :: splitWhere isSeparator t
    else match splitWhere isSeparator t with
      | [] => [[c]]
      | piece :: pieces => (c :: piece) :: pieces

/-- Joins pieces with a separator between neighbours. -/
def join (separator : Text) : List Text → Text
  | [] => []
  | [piece] => piece
  | piece :: next :: pieces => piece ++ separator ++ join separator (next :: pieces)

/-! ## Numbers -/

/-- Reads ASCII digits as a decimal number; other characters do not occur in the texts it is
given. -/
def toNat (digits : Text) : Nat := digits.foldl (fun n d => 10 * n + (d.toNat - '0'.toNat)) 0

/-- The decimal digits of a number. -/
def ofNat (n : Nat) : Text := Nat.toDigits 10 n

end Text

end NlsBundle
