import NlsBundle.Failure
import NlsBundle.Path

/-!
# File trees

Files and directories by their absolute paths in normal form. A file holds a text, or bytes that are
no text. Every directory above a file or a directory is itself in the tree.

A path is a place of its own: there are no links. In particular a path with two slashes in front,
which is in normal form, is another place than the one with a single slash. The directories above it
are looked for with a single slash (`hasPlaceFor`), so a file can be put there, but it is not found
under the other path.
-/

namespace NlsBundle

/-- What a file holds or a program prints. -/
inductive Content
  | text (t : Text)
  | bytes (b : List UInt8)
  deriving DecidableEq, Repr

structure FileTree where
  files : List (Text × Content)
  directories : List Text
  deriving DecidableEq, Repr

namespace FileTree

/-- A tree with the given files and directories and all directories above them. -/
def ofListing (files : List (Text × Content)) (directories : List Text) : FileTree where
  files := files
  directories := (files.map Prod.fst ++ directories).flatMap Path.ancestors ++ directories

/-! ## Looking -/

def file? (tree : FileTree) (path : Text) : Option Content := tree.files.lookup path

def isFile (tree : FileTree) (path : Text) : Bool := (tree.file? path).isSome

def isDirectory (tree : FileTree) (path : Text) : Bool := path = ['/'] || path ∈ tree.directories

def contains (tree : FileTree) (path : Text) : Bool := tree.isFile path || tree.isDirectory path

/-- Why a path that is not in the tree cannot be reached: something above it is a file, or is
missing. -/
def absence (tree : FileTree) (path : Text) : PathFault :=
  if (Path.ancestors path).any tree.isFile then .notADirectory else .noSuchFile

/-- Whether something new can be created at the path. -/
def hasPlaceFor (tree : FileTree) (path : Text) : Bool := (Path.ancestors path).all tree.isDirectory

/-- The content of a file. -/
def read (tree : FileTree) (path : Text) : Except PathFault Content :=
  match tree.file? path with
  | some content => .ok content
  | none => if tree.isDirectory path then .error .isADirectory else .error (tree.absence path)

/-! ## Changing -/

/-- Sets the content of a file; a new file comes last. -/
def putFile (path : Text) (content : Content) : List (Text × Content) → List (Text × Content)
  | [] => [(path, content)]
  | entry :: rest =>
      if entry.1 = path then (path, content) :: rest else entry :: putFile path content rest

/-- Writes a file, which is created if need be. -/
def write (tree : FileTree) (path : Text) (content : Content) : Except PathFault FileTree :=
  if tree.isDirectory path then .error .isADirectory
  else if tree.isFile path ∨ tree.hasPlaceFor path then
    .ok { tree with files := putFile path content tree.files }
  else .error (tree.absence path)

/-- Adds a directory at a path that is free. -/
def addDirectory (tree : FileTree) (path : Text) : Except PathFault FileTree :=
  if tree.hasPlaceFor path then .ok { tree with directories := tree.directories ++ [path] }
  else .error (tree.absence path)

/-- The files that are new or have a different content than in an earlier tree. -/
def changesSince (tree earlier : FileTree) : List (Text × Content) :=
  tree.files.filter fun (path, content) => earlier.file? path ≠ some content

end FileTree

end NlsBundle
