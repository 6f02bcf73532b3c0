/-!
# Access to files

What the commands need of the world around them: to read a file, to write one, and to print a line.
`MonadFiles` offers these three in a monad, and `FileError` lists the ways in which they fail.
-/

namespace WasmContract

/-- Why a file cannot be read or written. -/
inductive FileError where
  /-- The file or a directory on the way to it does not exist. -/
  | notFound
  /-- A component on the way to the file is not a directory. -/
  | notDirectory
  /-- The file is a directory. -/
  | isDirectory
  /-- Access is refused. -/
  | permissionDenied
  /-- The path or one of its components is too long. -/
  | nameTooLong
  /-- The path contains the character that ends a path. -/
  | nulInPath
  /-- The system gives another reason. -/
  | other (reason : String)
deriving DecidableEq, Repr, Inhabited

/-- The wording of a file error. -/
def FileError.message : FileError → String
  | notFound => "No such file or directory (os error 2)"
  | notDirectory => "Not a directory (os error 20)"
  | isDirectory => "Is a directory (os error 21)"
  | permissionDenied => "Permission denied (os error 13)"
  | nameTooLong => "File name too long (os error 36)"
  | nulInPath => "file name contained an unexpected NUL byte"
  | other reason => reason

/-- Monads in which files can be read and written and lines can be printed. -/
class MonadFiles (m : Type → Type) where
  /-- The content of a file. -/
  readFile : (path : String) → m (Except FileError (List UInt8))
  /-- Gives a file a new content, and makes the file if there is none. -/
  writeFile : (path : String) → (content : List UInt8) → m (Except FileError Unit)
  /-- Prints a line. -/
  printLine : String → m Unit

end WasmContract
