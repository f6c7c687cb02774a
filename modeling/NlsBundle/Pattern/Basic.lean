import NlsBundle.Text.Basic
import NlsBundle.Text.Blank
import NlsBundle.Text.WordChar

/-!
# Patterns

The patterns that names are searched with: characters and character sets, anchors, sequences,
choices, groups and repeats. Matching is in `Pattern.Match`, reading a pattern from its text in
`Pattern.Parser`.
-/

namespace NlsBundle

/-! ## Character sets -/

/-- Named classes of characters. -/
inductive CharClass
  | digit
  | word
  | blank
  deriving DecidableEq, Repr

def CharClass.holds : CharClass → Char → Bool
  | .digit, c => Text.isDigit c
  | .word, c => Text.isWordChar c
  | .blank, c => Text.isBlank c

/-- One item of a character set. A range is given by code points, because a pattern can name code
points that are no characters; such a range holds none. -/
inductive CharItem
  | single (c : Char)
  | range (low high : Nat)
  | inClass (k : CharClass)
  | notInClass (k : CharClass)
  deriving DecidableEq, Repr

def CharItem.holds : CharItem → Char → Bool
  | .single d, c => c = d
  | .range low high, c => low ≤ c.toNat && c.toNat ≤ high
  | .inClass k, c => k.holds c
  | .notInClass k, c => !k.holds c

/-- The item for a code point. -/
def CharItem.ofCode (n : Nat) : CharItem :=
  if n.isValidChar then .single (Char.ofNat n) else .range n n

/-- The characters for which some item holds or, if `negated`, those for which none does. -/
structure CharSet where
  negated : Bool
  items : List CharItem
  deriving DecidableEq, Repr

def CharSet.holds (s : CharSet) (c : Char) : Bool := s.items.any (·.holds c) != s.negated

/-! ## Patterns -/

/-- Conditions on a place in the text; they take up no characters. -/
inductive Anchor
  /-- the very beginning of the text -/
  | start
  /-- the end of the text, or the place before a line feed that ends it -/
  | finish
  /-- the very end of the text -/
  | veryEnd
  /-- a place with a word character on exactly one side -/
  | wordEdge
  /-- any other place -/
  | noWordEdge
  deriving DecidableEq, Repr

/-- In which order the numbers of repetitions are tried. -/
inductive Appetite
  /-- more first -/
  | greedy
  /-- fewer first -/
  | lazy
  /-- as many as possible, and no other number -/
  | possessive
  deriving DecidableEq, Repr

inductive Pattern
  | empty
  | one (s : CharSet)
  | anchor (a : Anchor)
  | seq (p q : Pattern)
  | alt (p q : Pattern)
  | grouped (p : Pattern)
  /-- at least `low` times `p`, and at most `high` times where a bound is given -/
  | loop (appetite : Appetite) (low : Nat) (high : Option Nat) (p : Pattern)
  deriving DecidableEq, Repr

namespace Pattern

/-- The pattern of a single character. -/
def char (c : Char) : Pattern := .one ⟨false, [.single c]⟩

/-- Any character but the line feed. -/
def anyButLineFeed : Pattern := .one ⟨true, [.single '\n']⟩

/-- One pattern after the other. -/
def sequence : List Pattern → Pattern
  | [] => .empty
  | [p] => p
  | p :: ps => .seq p (sequence ps)

/-- The branches of a choice, tried in order. -/
def choice : List Pattern → Pattern
  | [] => .empty
  | [p] => p
  | p :: ps => .alt p (choice ps)

/-- The pattern of a text that stands for itself. -/
def literal (t : Text) : Pattern := sequence (t.map char)

/-- Any number of characters within a line, more being tried first. -/
def anyRun : Pattern := .loop .greedy 0 none anyButLineFeed

end Pattern

end NlsBundle
