import NlsBundle.Text.Quoted

/-!
# Templates

A template is a text with fields in braces, which are filled with arguments. A field is empty, and
then takes the next argument, or it has the number of its argument; the two kinds cannot be mixed. A
doubled brace stands for a single one. Fields are filled from left to right, so the first fault is
the one that is reported.
-/

namespace NlsBundle.Template

/-- Why a template cannot be filled. -/
inductive Error
  | noArgument (index : Nat)
  | unknownName (name : Text)
  | loneClosing
  | loneOpening
  | unclosedField
  | manualAfterAutomatic
  | automaticAfterManual
  deriving DecidableEq, Repr

def Error.message : Error → Text
  | .noArgument index =>
    "Replacement index ".toList ++ Text.ofNat index ++
      " out of range for positional args tuple".toList
  | .unknownName name => Text.quoted name
  | .loneClosing => "Single '\x7d' encountered in format string".toList
  | .loneOpening => "Single '\x7b' encountered in format string".toList
  | .unclosedField => "expected '\x7d' before end of string".toList
  | .manualAfterAutomatic =>
    "cannot switch from automatic field numbering to manual field specification".toList
  | .automaticAfterManual =>
    "cannot switch from manual field specification to automatic field numbering".toList

/-- How the fields so far chose their arguments. -/
inductive Numbering
  | undecided
  /-- by their order; `next` arguments have been taken -/
  | automatic (next : Nat)
  | manual
  deriving DecidableEq, Repr

/-- The argument number of a field, and the numbering after it. -/
def fieldIndex (numbering : Numbering) (field : Text) : Except Error (Nat × Numbering) :=
  if field = [] then
    match numbering with
    | .undecided => .ok (0, .automatic 1)
    | .automatic next => .ok (next, .automatic (next + 1))
    | .manual => .error .automaticAfterManual
  else if field.all Char.isDigit then
    match numbering with
    | .automatic _ => .error .manualAfterAutomatic
    | _ => .ok (Text.toNat field, .manual)
  else .error (.unknownName field)

/-- Fills the rest of a template. -/
def fillFrom (arguments : List Text) (numbering : Numbering) : Text → Except Error Text
  | [] => .ok []
  | '{' :: '{' :: t => ('{' :: ·) <$> fillFrom arguments numbering t
  | '}' :: '}' :: t => ('}' :: ·) <$> fillFrom arguments numbering t
  | c :: t =>
    if c = '}' then .error .loneClosing
    else if c = '{' then
      if t = [] then .error .loneOpening
      else
        let field := t.takeWhile (· ≠ '}')
        if field.length = t.length then .error .unclosedField
        else do
          let (index, next) ← fieldIndex numbering field
          match arguments[index]? with
          | none => .error (.noArgument index)
          | some value => (value ++ ·) <$> fillFrom arguments next (t.drop (field.length + 1))
    else (c :: ·) <$> fillFrom arguments numbering t
termination_by t => t.length
decreasing_by
  all_goals simp only [List.length_cons, List.length_drop]; omega

/-- Fills the fields of a template with the arguments. -/
def fill (template : Text) (arguments : List Text) : Except Error Text :=
  fillFrom arguments .undecided template

end NlsBundle.Template
