import NlsBundle.Declaration

/-!
# Replacement rules

A rule says which use of a message variable becomes which look-up call. The rules of a run are
ordered so that longer variables, and for one variable longer classes, come first: then no rule
replaces a part of what a later rule is about.
-/

namespace NlsBundle

/-- How one message variable is converted. -/
structure Rule where
  /-- the use of the variable through its class -/
  usage : Text
  /-- the look-up call that takes its place -/
  call : Text
  className : Text
  variableName : Text
  package : Text
  deriving DecidableEq, Repr

namespace Rule

/-- The rule for a variable of a class. -/
def ofVariable (className variableName package : Text) : Rule where
  usage := className ++ '.' :: variableName
  call := className ++ ".getString(\"".toList ++ variableName ++ "\")".toList
  className := className
  variableName := variableName
  package := package

/-! ## Order -/

/-- Rules ascend by the length of the variable, then by the variable, then by the length of the
class, then by the use. -/
def le (a b : Rule) : Bool :=
  if a.variableName.length ≠ b.variableName.length then
    a.variableName.length < b.variableName.length
  else if a.variableName ≠ b.variableName then a.variableName < b.variableName
  else if a.className.length ≠ b.className.length then a.className.length < b.className.length
  else ¬ b.usage < a.usage

/-- Puts the rules into the order in which they are applied, the greatest first; among equals the
later one comes first. -/
def arrange (rules : List Rule) : List Rule := (rules.mergeSort le).reverse

/-! ## Building -/

/-- Why no rules can be built. -/
inductive BuildError
  | badLine (e : Declaration.Error)
  | unknownPackage (path : Text)
  deriving DecidableEq, Repr

/-- The rule for one declaration line of the file at `path`. -/
def ofLine (packages : List (Text × Text)) (path line : Text) : Except BuildError Rule := do
  let variableName ← (Declaration.variableName line).mapError .badLine
  match packages.lookup path with
  | none => .error (.unknownPackage path)
  | some package => .ok (ofVariable (Declaration.className path) variableName package)

/-- The rules for all declaration lines, which are given with the paths of their files; each path
has one entry. -/
def build (lines : List (Text × List Text)) (packages : List (Text × Text)) :
    Except BuildError (List Rule) := do
  let sorted := lines.mergeSort fun a b => ¬ b.1 < a.1
  let rules ← sorted.mapM fun (path, declared) => declared.mapM (ofLine packages path)
  .ok (arrange rules.flatten)

end Rule

end NlsBundle
