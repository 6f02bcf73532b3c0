import WasmContract.Command.Run

/-!
# Command line

The program: parses its arguments, runs the command on the files of the system, and reports an error
with its causes on the standard error stream.
-/

namespace WasmContract

/-- The file error for an error of the system. The code of an error comes with either sign. -/
def FileError.ofSystem (e : IO.Error) : FileError :=
  match e with
  | .noFileOrDirectory .. | .noSuchThing .. => .notFound
  | .permissionDenied .. => .permissionDenied
  | .inappropriateType _ code _ =>
    if code = 21 ∨ code = -21 then .isDirectory else .notDirectory
  | .invalidArgument _ code _ =>
    if code = 36 ∨ code = -36 then .nameTooLong else .other (toString e)
  | _ => .other (toString e)

instance : MonadFiles IO where
  readFile path := do
    try
      return .ok (← IO.FS.readBinFile path).toList
    catch e => return .error (.ofSystem e)
  writeFile path content := do
    try
      IO.FS.writeBinFile path ⟨content.toArray⟩
      return .ok ()
    catch e => return .error (.ofSystem e)
  printLine := IO.println

/-- How the program is called. -/
def usage : String :=
  "usage: dump FILE\n       validate [--out DIR] [--allow-custom] FILE"

/-- An error message followed by its causes, which are numbered if there are several. -/
def errorText : List String → String
  | [] => "Error"
  | [message] => s!"Error: {message}"
  | [message, cause] => s!"Error: {message}\n\nCaused by:\n    {cause}"
  | message :: causes =>
    let numbered := causes.mapIdx fun index cause => s!"\n{Text.column 5 index}: {cause}"
    s!"Error: {message}\n\nCaused by:" ++ String.join numbered

end WasmContract

open WasmContract in
/-- Runs the program and gives its exit code: 0 for success, 1 for a failed command, 2 for a command
line that cannot be understood. -/
def main (arguments : List String) : IO UInt32 := do
  match Command.parse arguments with
  | .error .helpAsked =>
    IO.println usage
    return 0
  | .error _ =>
    IO.eprintln usage
    return 2
  | .ok command =>
    match ← (command.run (m := IO)).run with
    | .ok () => return 0
    | .error e =>
      IO.eprintln (errorText e.messages)
      return 1
