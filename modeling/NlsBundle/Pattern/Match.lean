import NlsBundle.Pattern.Basic

/-!
# Matching

A pattern is tried at a cursor. Of the ways in which it can match, the first one after which the
rest of the work succeeds is taken, so matching takes a continuation: what remains to be done at the
end of the match. A search tries the places of a text from left to right.
-/

namespace NlsBundle

/-- A place in a text: the character on its left, if any, and all that follows. -/
structure Cursor where
  before : Option Char
  rest : Text
  deriving DecidableEq, Repr

def Anchor.holds : Anchor → Cursor → Bool
  | .start, c => c.before.isNone
  | .finish, c => c.rest = [] || c.rest = ['\n']
  | .veryEnd, c => c.rest = []
  | .wordEdge, c => c.before.any Text.isWordChar != c.rest.head?.any Text.isWordChar
  | .noWordEdge, c => c.before.any Text.isWordChar == c.rest.head?.any Text.isWordChar

namespace Pattern

/-- The rest of the work: given the end of a match, the end of everything, if that succeeds. -/
abbrev Continuation := Cursor → Option Cursor

/-- The way to match something: where it starts and what is to be done after it. -/
abbrev Matcher := Cursor → Continuation → Option Cursor

/-- Matches exactly `n` times. -/
def exactly (step : Matcher) : Nat → Matcher
  | 0, c, k => k c
  | n + 1, c, k => step c fun d => exactly step n d k

/-- Whether one more repetition is allowed. -/
def mayRepeat : Option Nat → Bool
  | some 0 => false
  | _ => true

/-- Matches any number of times up to `bound`, more being tried first. A repetition that takes up no
characters is the last one; `fuel` is the number of characters left. -/
def manyGreedy (step : Matcher) : Nat → Option Nat → Matcher
  | 0, _, c, k => k c
  | fuel + 1, bound, c, k =>
    (if mayRepeat bound then
      step c fun d =>
        if d.rest.length = c.rest.length then k d
        else manyGreedy step fuel (bound.map (· - 1)) d k
    else none) <|> k c

/-- As `manyGreedy`, but fewer repetitions are tried first. -/
def manyLazy (step : Matcher) : Nat → Option Nat → Matcher
  | 0, _, c, k => k c
  | fuel + 1, bound, c, k =>
    k c <|>
      if mayRepeat bound then
        step c fun d =>
          if d.rest.length = c.rest.length then none
          else manyLazy step fuel (bound.map (· - 1)) d k
      else none

/-- Repeats, each time in the first way that matches, until no repetition is possible. -/
def manyPossessive (step : Matcher) : Nat → Option Nat → Matcher
  | 0, _, c, k => k c
  | fuel + 1, bound, c, k =>
    match if mayRepeat bound then step c some else none with
    | none => k c
    | some d =>
      if d.rest.length = c.rest.length then k d
      else manyPossessive step fuel (bound.map (· - 1)) d k

/-- Exactly `n` times, each time in the first way that matches. -/
def exactlyPossessive (step : Matcher) : Nat → Matcher
  | 0, c, k => k c
  | n + 1, c, k =>
    match step c some with
    | none => none
    | some d => exactlyPossessive step n d k

/-- Matches the pattern at a cursor and does the rest of the work after it. -/
def run : Pattern → Matcher
  | .empty => fun c k => k c
  | .one s => fun c k =>
    match c.rest with
    | [] => none
    | x :: rest => if s.holds x then k ⟨some x, rest⟩ else none
  | .anchor a => fun c k => if a.holds c then k c else none
  | .seq p q => fun c k => p.run c fun d => q.run d k
  | .alt p q => fun c k => p.run c k <|> q.run c k
  | .grouped p => p.run
  | .loop .greedy low high p => fun c k =>
    exactly p.run low c fun d => manyGreedy p.run d.rest.length (high.map (· - low)) d k
  | .loop .lazy low high p => fun c k =>
    exactly p.run low c fun d => manyLazy p.run d.rest.length (high.map (· - low)) d k
  | .loop .possessive low high p => fun c k =>
    exactlyPossessive p.run low c fun d =>
      manyPossessive p.run d.rest.length (high.map (· - low)) d k

/-- The end of the match at this very place, if there is one. -/
def matchAt? (p : Pattern) (c : Cursor) : Option Cursor := p.run c some

/-! ## Search -/

/-- A match found in a text: the number of characters before it and before its end. -/
structure Span where
  start : Nat
  stop : Nat
  deriving DecidableEq, Repr

/-- Moves a span to the right. -/
def Span.shift (n : Nat) (s : Span) : Span := ⟨s.start + n, s.stop + n⟩

/-- The leftmost match in `rest`, with positions counted from the front of `rest`; `before` is the
character on its left. -/
def searchRest? (p : Pattern) (before : Option Char) : Text → Option Span
  | [] => (p.matchAt? ⟨before, []⟩).map fun _ => ⟨0, 0⟩
  | x :: rest =>
    match p.matchAt? ⟨before, x :: rest⟩ with
    | some d => some ⟨0, (x :: rest).length - d.rest.length⟩
    | none => (searchRest? p (some x) rest).map (Span.shift 1)

/-- The leftmost match that starts at `position` or later; a position beyond the end counts as the
end. -/
def search? (p : Pattern) (t : Text) (position : Nat) : Option Span :=
  let place := min position t.length
  (searchRest? p (t.take place).getLast? (t.drop place)).map (Span.shift place)

/-- Whether the pattern matches anywhere in the text. -/
def occursIn (p : Pattern) (t : Text) : Bool := (p.search? t 0).isSome

end Pattern

end NlsBundle
