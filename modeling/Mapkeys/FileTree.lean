import Mapkeys.Path
import Mapkeys.Text.Quoted
import Mapkeys.Text.Utf8

/-!
# File trees

The files and folders that a command works with, and reading, writing and making folders there.
-/

namespace Mapkeys

open Text

/-! ## Errors -/

/-- Why a file or folder cannot be used. -/
inductive FileCause where
  | missing
  | occupied
  | notFolder
  | isFolder
  deriving Repr, DecidableEq

namespace FileCause

/-- The number of a cause. -/
def number : FileCause → Nat
  | missing => 2
  | occupied => 17
  | notFolder => 20
  | isFolder => 21

/-- What a cause means. -/
def meaning : FileCause → String
  | missing => "No such file or directory"
  | occupied => "File exists"
  | notFolder => "Not a directory"
  | isFolder => "Is a directory"

end FileCause

/-- A path that cannot be used, and why. -/
structure FileError where
  cause : FileCause
  path : Path
  deriving Repr, DecidableEq

/-- What is said about a path that cannot be used. -/
def FileError.message (error : FileError) : Text :=
  "[Errno ".toList ++ ofNat error.cause.number ++ "] ".toList ++ error.cause.meaning.toList
    ++ ": ".toList ++ quoted error.path.render

/-! ## Trees -/

/-- Files with their bytes, and folders made beside those that the files lie in. Two dots stand in
    their paths at the beginning only, where they lead out of the working folder. -/
structure FileTree where
  files : List (Path × List UInt8)
  folders : List Path
  deriving Repr, DecidableEq

namespace FileTree

/-- Whether there is a folder at a place. The working folder and those around it are there, and a
    file or folder lies in folders all the way. -/
def hasFolder (tree : FileTree) (place : Path) : Bool :=
  place.leadsOut || tree.files.any (fun (file, _) => place.isAround file && file ≠ place)
    || tree.folders.any place.isAround

/-- The bytes of the file at a place. -/
def file? (tree : FileTree) (place : Path) : Option (List UInt8) := tree.files.lookup place

/-- The place that the parts of a path lead to from a place. Every place on the way must be a
    folder; the last one need not exist. -/
def locateFrom (tree : FileTree) (place : Path) : List Text → Except FileCause Path
  | [] => .ok place
  | part :: rest =>
    if !tree.hasFolder place then
      .error (if (tree.file? place).isSome then .notFolder else .missing)
    else tree.locateFrom (place.enter part) rest

/-- The place that a path leads to. -/
def locate (tree : FileTree) (path : Path) : Except FileCause Path :=
  tree.locateFrom ⟨path.root, []⟩ path.parts

/-- Whether a path leads to a file. -/
def isFile (tree : FileTree) (path : Path) : Bool :=
  match tree.locate path with
  | .ok place => (tree.file? place).isSome
  | .error _ => false

/-- Whether a path leads to a folder. -/
def isFolder (tree : FileTree) (path : Path) : Bool :=
  match tree.locate path with
  | .ok place => tree.hasFolder place
  | .error _ => false

/-- The text of the file at a path. -/
def read (tree : FileTree) (path : Path) : Except FileError Text :=
  match tree.locate path with
  | .error cause => .error ⟨cause, path⟩
  | .ok place =>
    if tree.hasFolder place then .error ⟨.isFolder, path⟩
    else match tree.file? place with
      | some bytes => .ok (ofBytes bytes)
      | none => .error ⟨.missing, path⟩

/-- The tree with bytes in the file at a path. -/
def put (tree : FileTree) (path : Path) (bytes : List UInt8) : FileTree :=
  { tree with files := tree.files.filter (·.1 ≠ path) ++ [(path, bytes)] }

/-- Writes a text to the file at a path. -/
def write (tree : FileTree) (path : Path) (t : Text) : Except FileError FileTree :=
  match tree.locate path with
  | .error cause => .error ⟨cause, path⟩
  | .ok place =>
    if tree.hasFolder place then .error ⟨.isFolder, path⟩
    else .ok (tree.put place (encodeUtf8 t))

/-- Makes the folder at a path, which must not exist while the folder around it must. -/
def makeFolder (tree : FileTree) (path : Path) : Except FileError FileTree :=
  match tree.locate path with
  | .error cause => .error ⟨cause, path⟩
  | .ok place =>
    if tree.hasFolder place || (tree.file? place).isSome then .error ⟨.occupied, path⟩
    else .ok { tree with folders := tree.folders ++ [place] }

/-- Makes the folder at a path unless there is one. -/
def provideFolder (tree : FileTree) (path : Path) : Except FileError FileTree :=
  match tree.makeFolder path with
  | .ok made => .ok made
  | .error error => if tree.isFolder path then .ok tree else .error error

/-- Makes the folder at a path and, if it is missing, the ones around it; `depth` bounds how many
    of those are tried. -/
def provideFolders (tree : FileTree) (path : Path) : (depth : Nat) → Except FileError FileTree
  | 0 => tree.provideFolder path
  | depth + 1 =>
    match tree.makeFolder path with
    | .error ⟨.missing, _⟩ => do
      let around ← tree.provideFolders path.parent depth
      around.provideFolder path
    | _ => tree.provideFolder path

/-- Makes the folder at a path and the ones around it, unless they are there. -/
def ensureFolder (tree : FileTree) (path : Path) : Except FileError FileTree :=
  tree.provideFolders path path.parts.length

/-- The files that are new, or not as they were before, with their texts. -/
def changes (before after : FileTree) : List (Path × Text) :=
  (after.files.filter fun (path, bytes) => before.files.lookup path ≠ some bytes).map
    fun (path, bytes) => (path, decodeUtf8 bytes)

end FileTree
end Mapkeys
