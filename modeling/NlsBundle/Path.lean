import NlsBundle.Text.Basic

/-!
# Paths

Paths are texts with slashes between their components. All operations are on the text alone; none
looks at files.
-/

namespace NlsBundle.Path

def separator : Char := '/'

def isAbsolute (path : Text) : Bool := path.head? = some separator

/-- The components of a path; empty ones are left out. -/
def components (path : Text) : List Text := (Text.splitWhere (· = separator) path).filter (· ≠ [])

/-- Appends a path to a directory; an absolute path stands for itself. -/
def join (directory path : Text) : Text :=
  if isAbsolute path then path
  else if directory = [] ∨ directory.getLast? = some separator then directory ++ path
  else directory ++ separator :: path

/-! ## Normal form -/

/-- The slashes at the front that belong to a normal form: exactly two are kept, more count as
one. -/
def leadingSlashes (path : Text) : Nat :=
  let n := (path.takeWhile (· = separator)).length
  if n ≤ 2 then n else 1

/-- Adds a component to the components found so far (last first): `.` adds nothing, and `..` takes
one back, stays at the root, or is kept where there is nothing to take back. -/
def climb (rooted : Bool) (found : List Text) (component : Text) : List Text :=
  if component = ['.'] then found
  else if component = ['.', '.'] then
    match found with
    | [] => if rooted then [] else [component]
    | last :: rest => if last = ['.', '.'] then component :: found else rest
  else component :: found

/-- The components of the normal form. -/
def resolve (rooted : Bool) (cs : List Text) : List Text := (cs.foldl (climb rooted) []).reverse

/-- The normal form of a path: no empty components, no `.`, and `..` only at the front of a relative
path. -/
def normalize (path : Text) : Text :=
  let slashes := leadingSlashes path
  let cs := resolve (slashes ≠ 0) (components path)
  let text := List.replicate slashes separator ++ Text.join [separator] cs
  if text = [] then ['.'] else text

/-- The normal form of a path seen from the working directory. -/
def absolute (workingDirectory path : Text) : Text := normalize (join workingDirectory path)

/-! ## Relative paths -/

/-- Drops the common front of two lists. -/
def dropCommon : List Text → List Text → List Text × List Text
  | a :: as, b :: bs => if a = b then dropCommon as bs else (a :: as, b :: bs)
  | as, bs => (as, bs)

/-- The way to `path` from the directory `start`, both seen from the working directory. -/
def relative (workingDirectory path start : Text) : Text :=
  let (up, down) := dropCommon (components (absolute workingDirectory start))
    (components (absolute workingDirectory path))
  let cs := up.map (fun _ => ['.', '.']) ++ down
  if cs = [] then ['.'] else Text.join [separator] cs

/-! ## Parts of a path -/

/-- The last component; empty if the path ends with a slash. -/
def baseName (path : Text) : Text := (path.reverse.takeWhile (· ≠ separator)).reverse

/-- The path without its last component; slashes at its end are dropped unless there is nothing
else. -/
def parent (path : Text) : Text :=
  let head := path.take (path.length - (baseName path).length)
  if head.all (· = separator) then head
  else (head.reverse.dropWhile (· = separator)).reverse

theorem length_baseName_le (path : Text) : (baseName path).length ≤ path.length := by
  have := (List.takeWhile_sublist (fun c => decide (c ≠ separator)) (l := path.reverse)).length_le
  simpa [baseName] using this

/-- The two parts of a path do not overlap. -/
theorem length_parent_add_length_baseName_le (path : Text) :
    (parent path).length + (baseName path).length ≤ path.length := by
  have hbase := length_baseName_le path
  have hhead : (path.take (path.length - (baseName path).length)).length ≤
      path.length - (baseName path).length := by
    simp only [List.length_take]; omega
  have hparent :
      (parent path).length ≤ (path.take (path.length - (baseName path).length)).length := by
    unfold parent
    dsimp only
    split
    · exact Nat.le_refl _
    · rw [List.length_reverse]
      exact Nat.le_trans (List.dropWhile_sublist _).length_le (Nat.le_of_eq List.length_reverse)
  omega

/-- The path without slashes at its end. -/
def withoutEndSlash (path : Text) : Text := if baseName path = [] then parent path else path

theorem length_withoutEndSlash_le (path : Text) : (withoutEndSlash path).length ≤ path.length := by
  have := length_parent_add_length_baseName_le path
  unfold withoutEndSlash
  split <;> omega

/-- A file name without its extension. Dots at the front do not start an extension. -/
def stem (name : Text) : Text :=
  let dots := name.takeWhile (· = '.')
  match Text.cutLast? ['.'] (name.drop dots.length) with
  | some (before, _) => dots ++ before
  | none => name

/-! ## Ancestors -/

/-- The fronts of a list that are shorter than the list. -/
def properFronts : List Text → List (List Text)
  | [] => []
  | a :: as => [] :: (properFronts as).map (a :: ·)

/-- The directories above an absolute path in normal form, the root first. -/
def ancestors (path : Text) : List Text :=
  (properFronts (components path)).map fun cs => separator :: Text.join [separator] cs

end NlsBundle.Path
