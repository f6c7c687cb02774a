import NlsBundle.Pattern.Match
import NlsBundle.Pattern.Parser

/-!
# Splicing calls into a text

Where a variable is imported statically it stands alone, and every such use is replaced by its
look-up call. A use has a character on its left that is neither a dot nor a quote and one on its
right that is no quote. A use near the very beginning of the text is treated separately, and takes
the character on its left with it.

The variable is read as a pattern. After a replacement the search goes on behind the inserted call,
as far as the length of the variable says where that is. For a variable without metacharacters that
always moves on. For one that is a pattern it can lead back, even without end, so the number of
rounds is bounded and running out of rounds is an outcome of its own.
-/

namespace NlsBundle.Usage

/-- Why a text cannot be converted. -/
inductive Error
  | badPattern (e : Pattern.Error)
  | endless
  deriving DecidableEq, Repr

/-- Reads a pattern that was put together from names. -/
def pattern (t : Text) : Except Error Pattern := (Pattern.parse t).mapError .badPattern

/-- A use of the variable within the text. -/
def innerUse (variableName : Text) : Text := "[^\\.\"]".toList ++ variableName ++ "[^\"]".toList

/-- A use of the variable after the first character of the text. -/
def frontUse (variableName : Text) : Text := "^[^\"]".toList ++ variableName

/-- The text from the character before `stop` on. Before the first character there is none, and the
last one is taken instead. -/
def fromBefore (t : Text) (stop : Nat) : Text :=
  if stop = 0 then t.drop (t.length - 1) else t.drop (stop - 1)

/-- Replaces matches from `position` on, but keeps the first and the last character of each
match. -/
def spliceInner (p : Pattern) (variableName call : Text) : Nat → Text → Nat → Option Text
  | 0, _, _ => none
  | rounds + 1, t, position =>
    match p.search? t position with
    | none => some t
    | some m =>
      if m.start < t.length then
        spliceInner p variableName call rounds (t.take (m.start + 1) ++ call ++ fromBefore t m.stop)
          (m.stop + call.length - (variableName.length + 1))
      else some t

/-- Replaces whole matches from `position` on. -/
def spliceFront (p : Pattern) (variableName call : Text) : Nat → Text → Nat → Option Text
  | 0, _, _ => none
  | rounds + 1, t, position =>
    match p.search? t position with
    | none => some t
    | some m =>
      if m.start < t.length then
        spliceFront p variableName call rounds (t.take m.start ++ call ++ t.drop m.stop)
          (m.stop + call.length - variableName.length)
      else some t

/-- Enough rounds for every variable without metacharacters. For a variable that is a pattern there
may be too few. With `a{1}b{1}` and the call `bba`, for example, an `a` moves behind the letters `b`
after it and doubles them, so `n` letters `a` before a `b` take `2 ^ n - 1` rounds. A splice that
takes more rounds than this counts as endless, though it would come to an end. -/
def roundLimit (t variableName call : Text) : Nat :=
  (t.length + variableName.length + call.length + 2) *
    (t.length + variableName.length + call.length + 2)

/-- Replaces the uses of a variable that stands alone by its look-up call. -/
def spliceVariable (t variableName call : Text) : Except Error Text := do
  let inner ← pattern (innerUse variableName)
  let front ← pattern (frontUse variableName)
  match spliceInner inner variableName call (roundLimit t variableName call) t 0 with
  | none => .error .endless
  | some u =>
    match spliceFront front variableName call (roundLimit u variableName call) u 0 with
    | none => .error .endless
    | some v => .ok v

end NlsBundle.Usage
