import WasmContract.Command.Files
import WasmContract.Command.Path

/-!
# Files in memory

A `Disk` is a tree of directories and files as a value, and `DiskM` runs commands on it. It shows
what a command reads and writes without any effect outside.
-/

namespace WasmContract

/-- Directories and files, each under the list of the names that lead to it from the root, and the
lines printed so far. -/
structure Disk where
  /-- The directories below the root. -/
  directories : List (List String) := []
  /-- The files with their contents. -/
  files : List (List String × List UInt8) := []
  /-- The directory at which relative paths start. -/
  workingDirectory : List String := []
  /-- The lines printed, in order. -/
  printed : List String := []
deriving DecidableEq, Repr, Inhabited

namespace Disk

/-- The content of the file at a place. -/
def file? (d : Disk) (place : List String) : Option (List UInt8) := d.files.lookup place

/-- There is a directory at a place; the root is one. -/
def IsDirectory (d : Disk) (place : List String) : Prop := place = [] ∨ place ∈ d.directories

instance (d : Disk) (place : List String) : Decidable (d.IsDirectory place) :=
  inferInstanceAs (Decidable (_ ∨ _))

/-- Follows steps from a place. Every place that is left must be a directory, and only a directory
refuses a name that is too long. -/
def follow (d : Disk) : List String → List String → Except FileError (List String)
  | place, [] => pure place
  | place, step :: later =>
    if d.IsDirectory place then
      if step = "" ∨ step = "." then d.follow place later
      else if step = ".." then d.follow place.dropLast later
      else if Path.maxComponentSize < step.utf8ByteSize then throw .nameTooLong
      else d.follow (place ++ [step]) later
    else if (d.file? place).isSome then throw .notDirectory
    else throw .notFound

/-- The place that a path names. Its characters and its size are looked at before the first step. -/
def resolve (d : Disk) (path : String) : Except FileError (List String) := do
  if '\x00' ∈ path.toList then throw .nulInPath
  if Path.maxSize < path.utf8ByteSize then throw .nameTooLong
  d.follow (if Path.IsAbsolute path then [] else d.workingDirectory) (Path.components path)

/-- The content of the file that a path names. -/
def read (d : Disk) (path : String) : Except FileError (List UInt8) := do
  let place ← d.resolve path
  match d.file? place with
  | some content => return content
  | none => if d.IsDirectory place then throw .isDirectory else throw .notFound

/-- The disk after the file that a path names has been given a content. -/
def write (d : Disk) (path : String) (content : List UInt8) : Except FileError Disk := do
  let place ← d.resolve path
  if d.IsDirectory place then throw .isDirectory
  return { d with files := (place, content) :: d.files.filter fun file => file.1 ≠ place }

end Disk

/-- Computations on a disk. -/
abbrev DiskM := StateM Disk

instance : MonadFiles DiskM where
  readFile path := do
    return (← get).read path
  writeFile path content := do
    match (← get).write path content with
    | .ok disk =>
      set disk
      return .ok ()
    | .error cause => return .error cause
  printLine line := modify fun disk => { disk with printed := disk.printed ++ [line] }

end WasmContract
