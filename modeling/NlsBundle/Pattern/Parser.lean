import NlsBundle.Pattern.Basic

/-!
# Reading patterns

A pattern is read from left to right. The readers of its parts say how many characters they have
taken, so the main reader goes on with what is left and is never at a loss for termination.

Patterns are what can be made of characters, sets, groups, alternatives and repetitions. Groups that
begin with a question mark and references back to a group are refused, whatever they would mean.
-/

namespace NlsBundle.Pattern

/-- Why a text is no pattern. -/
inductive Error
  | nothingToRepeat
  | multipleRepeat
  | unbalancedParenthesis
  | missingParenthesis
  | unterminatedSet
  | badRange
  | badCount
  | countTooLarge
  | badEscape
  | badReference
  | unknownExtension
  deriving DecidableEq, Repr

/-! ## Escapes -/

/-- The value of a digit in a base of at most sixteen. -/
def digitValue? (base : Nat) (c : Char) : Option Nat :=
  let n := c.toNat
  let value? :=
    if '0'.toNat ≤ n ∧ n ≤ '9'.toNat then some (n - '0'.toNat)
    else if 'a'.toNat ≤ n ∧ n ≤ 'f'.toNat then some (n - 'a'.toNat + 10)
    else if 'A'.toNat ≤ n ∧ n ≤ 'F'.toNat then some (n - 'A'.toNat + 10)
    else none
  value?.filter (· < base)

/-- The digits at the front of the text, at most `most` of them. -/
def digitsOf (base most : Nat) (t : Text) : List Nat :=
  ((t.take most).takeWhile fun c => (digitValue? base c).isSome).filterMap (digitValue? base)

def valueOf (base : Nat) (digits : List Nat) : Nat := digits.foldl (fun n d => base * n + d) 0

/-- A code point written with exactly `width` hexadecimal digits. -/
def hexItem (width : Nat) (t : Text) : Except Error (CharItem × Nat) :=
  let digits := digitsOf 16 width t
  if digits.length = width ∧ valueOf 16 digits < 0x110000 then
    .ok (.ofCode (valueOf 16 digits), width)
  else .error .badEscape

/-- The largest code point that octal digits can name. -/
def octalLimit : Nat := 0o377

/-- The escape `e` with the characters after it, where it stands for a character or a class. -/
def escapedItem (e : Char) (t : Text) : Except Error (CharItem × Nat) :=
  match e with
  | 'd' => .ok (.inClass .digit, 0)
  | 'D' => .ok (.notInClass .digit, 0)
  | 's' => .ok (.inClass .blank, 0)
  | 'S' => .ok (.notInClass .blank, 0)
  | 'w' => .ok (.inClass .word, 0)
  | 'W' => .ok (.notInClass .word, 0)
  | 'a' => .ok (.ofCode 7, 0)
  | 't' => .ok (.ofCode 9, 0)
  | 'n' => .ok (.ofCode 10, 0)
  | 'v' => .ok (.ofCode 11, 0)
  | 'f' => .ok (.ofCode 12, 0)
  | 'r' => .ok (.ofCode 13, 0)
  | 'x' => hexItem 2 t
  | 'u' => hexItem 4 t
  | 'U' => hexItem 8 t
  | _ => if e.isAlpha then .error .badEscape else .ok (.single e, 0)

/-- An escape outside of sets. References to groups are not part of the patterns. -/
def escaped (e : Char) (t : Text) : Except Error (Pattern × Nat) :=
  if e = 'A' then .ok (.anchor .start, 0)
  else if e = 'Z' then .ok (.anchor .veryEnd, 0)
  else if e = 'b' then .ok (.anchor .wordEdge, 0)
  else if e = 'B' then .ok (.anchor .noWordEdge, 0)
  else if e = '0' then
    let digits := digitsOf 8 2 t
    .ok (.one ⟨false, [.ofCode (valueOf 8 digits)]⟩, digits.length)
  else if e.isDigit then
    let digits := digitsOf 8 3 (e :: t)
    if digits.length = 3 then
      if valueOf 8 digits ≤ octalLimit then .ok (.one ⟨false, [.ofCode (valueOf 8 digits)]⟩, 2)
      else .error .badEscape
    else .error .badReference
  else (escapedItem e t).map fun (item, n) => (.one ⟨false, [item]⟩, n)

/-- An escape inside a set. -/
def escapedInSet (e : Char) (t : Text) : Except Error (CharItem × Nat) :=
  if e = 'b' then .ok (.ofCode 8, 0)
  else if e.isDigit then
    let digits := digitsOf 8 3 (e :: t)
    if digits ≠ [] ∧ valueOf 8 digits ≤ octalLimit then
      .ok (.ofCode (valueOf 8 digits), digits.length - 1)
    else .error .badEscape
  else escapedItem e t

/-! ## Sets -/

/-- The item that begins with `c`, and how many characters after `c` belong to it. -/
def setItem (c : Char) (t : Text) : Except Error (CharItem × Nat) :=
  if c = '\\' then
    match t with
    | [] => .error .badEscape
    | e :: u => (escapedInSet e u).map fun (item, n) => (item, n + 1)
  else .ok (.single c, 0)

/-- The code point of an item that can bound a range. -/
def boundOf? : CharItem → Option Nat
  | .single c => some c.toNat
  | .range low _ => some low
  | _ => none

/-- The range between two items, which have to be single characters in ascending order. -/
def rangeOf (a b : CharItem) : Except Error CharItem :=
  match boundOf? a, boundOf? b with
  | some low, some high => if low ≤ high then .ok (.range low high) else .error .badRange
  | _, _ => .error .badRange

/-- Reads the items of a set up to its closing bracket, after the items found so far (last first),
and counts the characters taken. A closing bracket in the first place is an item, a hyphen in the
last place too. -/
def setItems (found : List CharItem) : Text → Except Error (List CharItem × Nat)
  | [] => .error .unterminatedSet
  | c :: t =>
    if c = ']' ∧ found ≠ [] then .ok (found.reverse, 1)
    else do
      let (a, n) ← setItem c t
      match _h : t.drop n with
      | '-' :: ']' :: _ => .ok ((.single '-' :: a :: found).reverse, n + 3)
      | ['-'] => .error .unterminatedSet
      | '-' :: d :: u =>
        let (b, m) ← setItem d u
        let r ← rangeOf a b
        let (items, k) ← setItems (r :: found) (u.drop m)
        .ok (items, n + m + k + 3)
      | rest =>
        let (items, k) ← setItems (a :: found) rest
        .ok (items, n + k + 1)
termination_by t => t.length
decreasing_by
  all_goals
    have := congrArg List.length _h
    simp only [List.length_drop, List.length_cons] at this ⊢
    omega

/-- Reads a set after its opening bracket. -/
def charSet (t : Text) : Except Error (CharSet × Nat) :=
  match t with
  | '^' :: u => (setItems [] u).map fun (items, n) => (⟨true, items⟩, n + 1)
  | _ => (setItems [] t).map fun (items, n) => (⟨false, items⟩, n)

/-! ## Repeats -/

/-- The first number that is too large for a count. -/
def countLimit : Nat := 4294967295

/-- Reads the bounds after an opening brace, and counts the characters taken; `none` if the brace is
no repeat. -/
def bounds? (t : Text) : Option (Option Nat × Option Nat × Nat) :=
  let number? (digits : Text) := if digits = [] then none else some (Text.toNat digits)
  let low := t.takeWhile Char.isDigit
  match t.drop low.length with
  | '}' :: _ => if low = [] then none else some (number? low, number? low, low.length + 1)
  | ',' :: u =>
    let high := u.takeWhile Char.isDigit
    match u.drop high.length with
    | '}' :: _ => some (number? low, number? high, low.length + high.length + 2)
    | _ => none
  | _ => none

/-- Bounds have to be in ascending order and small enough. -/
def checkedBounds (low high : Option Nat) : Except Error (Nat × Option Nat) :=
  if low.any (countLimit ≤ ·) ∨ high.any (countLimit ≤ ·) then .error .countTooLarge
  else if high.any (· < low.getD 0) then .error .badCount
  else .ok (low.getD 0, high)

/-- The mark after a repeat that changes its appetite, and its length. -/
def appetite : Text → Appetite × Nat
  | '?' :: _ => (.lazy, 1)
  | '+' :: _ => (.possessive, 1)
  | _ => (.greedy, 0)

/-! ## Groups and branches -/

/-- A group that is being read: its finished branches and the items of the current branch, both last
first. -/
structure OpenGroup where
  branches : List Pattern
  items : List Pattern
  deriving DecidableEq, Repr

namespace OpenGroup

def start : OpenGroup := ⟨[], []⟩

def push (g : OpenGroup) (p : Pattern) : OpenGroup := { g with items := p :: g.items }

def nextBranch (g : OpenGroup) : OpenGroup := ⟨sequence g.items.reverse :: g.branches, []⟩

def close (g : OpenGroup) : Pattern := choice g.nextBranch.branches.reverse

/-- Repeats the last item, which has to be there and may be neither an anchor nor a repeat. -/
def repeatLast (g : OpenGroup) (a : Appetite) (low : Nat) (high : Option Nat) :
    Except Error OpenGroup :=
  match g.items with
  | [] => .error .nothingToRepeat
  | .anchor _ :: _ => .error .nothingToRepeat
  | .loop .. :: _ => .error .multipleRepeat
  | p :: rest => .ok { g with items := .loop a low high p :: rest }

end OpenGroup

/-! ## The whole pattern -/

/-- The meanings of the characters that do not stand for themselves. -/
inductive Mark
  | escape
  | charSet
  | opening
  | closing
  | branch
  | any
  | start
  | finish
  | times (low : Nat) (high : Option Nat)
  | bounds
  deriving DecidableEq, Repr

def mark? (c : Char) : Option Mark :=
  match c with
  | '\\' => some .escape
  | '[' => some .charSet
  | '(' => some .opening
  | ')' => some .closing
  | '|' => some .branch
  | '.' => some .any
  | '^' => some .start
  | '$' => some .finish
  | '*' => some (.times 0 none)
  | '+' => some (.times 1 none)
  | '?' => some (.times 0 (some 1))
  | '{' => some .bounds
  | _ => none

/-- Reads the rest of a pattern inside the open groups, the innermost first. -/
def read (g : OpenGroup) (outer : List OpenGroup) : Text → Except Error Pattern
  | [] => if outer = [] then .ok g.close else .error .missingParenthesis
  | c :: t =>
    match mark? c with
    | none => read (g.push (.char c)) outer t
    | some .any => read (g.push anyButLineFeed) outer t
    | some .start => read (g.push (.anchor .start)) outer t
    | some .finish => read (g.push (.anchor .finish)) outer t
    | some .branch => read g.nextBranch outer t
    | some .opening =>
      if t.head? = some '?' then .error .unknownExtension else read .start (g :: outer) t
    | some .closing =>
      match outer with
      | [] => .error .unbalancedParenthesis
      | h :: hs => read (h.push (.grouped g.close)) hs t
    | some .escape =>
      match t with
      | [] => .error .badEscape
      | e :: u => do
        let (p, n) ← escaped e u
        read (g.push p) outer (u.drop n)
    | some .charSet => do
      let (s, n) ← charSet t
      read (g.push (.one s)) outer (t.drop n)
    | some (.times low high) => do
      let (a, n) := appetite t
      read (← g.repeatLast a low high) outer (t.drop n)
    | some .bounds =>
      match bounds? t with
      | none => read (g.push (.char c)) outer t
      | some (low?, high?, m) => do
        let (low, high) ← checkedBounds low? high?
        let (a, n) := appetite (t.drop m)
        read (← g.repeatLast a low high) outer (t.drop (m + n))
termination_by t => t.length
decreasing_by
  all_goals simp only [List.length_cons, List.length_drop]; omega

/-- Reads a pattern. -/
def parse (t : Text) : Except Error Pattern := read .start [] t

end NlsBundle.Pattern
