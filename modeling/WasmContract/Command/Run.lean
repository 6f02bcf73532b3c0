import WasmContract.Command.Arguments
import WasmContract.Command.Dump
import WasmContract.Command.Files
import WasmContract.Command.Path
import WasmContract.Contract.Validity

/-!
# Running commands

`Command.run` carries out a command in any monad with access to files. A command that fails has
printed nothing and written nothing, and `CommandError.messages` tells why, from the step that
failed down to the innermost cause.

Records are no part of what a command prints. `Command.runValidate` gives the one record that it
makes itself, about the file that was written; those of the library are given by
`Module.decodeLogged`, `Contract.readLogged` and `Contract.validateLogged`.
-/

namespace WasmContract

/-- Why a command failed. -/
inductive CommandError where
  /-- The file cannot be read. -/
  | readFile (file : String) (cause : FileError)
  /-- The file holds no module. -/
  | decode (file : String) (cause : ModuleError)
  /-- The file holds no module that can be read strictly. -/
  | readContract (cause : ModuleError)
  /-- The module is no valid contract. -/
  | invalid (cause : ValidationError)
  /-- The path of the file does not end in a name. -/
  | noFileName (file : String)
  /-- The canonical bytes cannot be written. -/
  | writeFile (file : String) (cause : FileError)
deriving DecidableEq, Repr, Inhabited

/-- The messages of a command error from the outermost to the innermost. -/
def CommandError.messages : CommandError → List String
  | readFile file cause => [s!"failed to read {file}", cause.message]
  | decode file cause => s!"failed to decode {file}" :: cause.messages
  | readContract cause => "read and validate module" :: cause.messages
  | invalid cause => ["module validate", cause.message]
  | noFileName file => [s!"{file} has no file name"]
  | writeFile file cause => [s!"failed to write {file}", cause.message]

namespace Command

variable {m : Type → Type} [Monad m] [MonadFiles m]

/-- The content of a file, for a command. -/
def contentOf (file : String) : ExceptT CommandError m (List UInt8) := do
  match ← MonadFiles.readFile (m := m) file with
  | .ok content => return content
  | .error cause => throw (.readFile file cause)

/-- Prints the dump of the module in a file. -/
def runDump (file : String) : ExceptT CommandError m Unit := do
  let content ← contentOf file
  match Module.decode content with
  | .ok decoded => decoded.dumpLines.forM fun line => MonadFiles.printLine (m := m) line
  | .error cause => throw (.decode file cause)

/-- Validates the contract in a file and writes its canonical bytes, under the same file name, to a
directory. Gives the record of what was written. -/
def runValidate (file out : String) (options : Options) : ExceptT CommandError m Record := do
  let content ← contentOf file
  match Contract.read content with
  | .error cause => throw (.readContract cause)
  | .ok contract =>
    match contract.validate options with
    | .error cause => throw (.invalid cause)
    | .ok () =>
      match Path.fileName? file with
      | none => throw (.noFileName file)
      | some name =>
        let destination := Path.join out name
        match ← MonadFiles.writeFile (m := m) destination contract.bytes with
        | .ok () => return .wrote contract.bytes.length content.length destination
        | .error cause => throw (.writeFile destination cause)

/-- Carries out a command. It shows none of the records, which are made for those who ask for
them. -/
def run : Command → ExceptT CommandError m Unit
  | .dump file => runDump file
  | .validate file out allowCustom => do
    let _ ← runValidate file out { allowCustom }

end Command

end WasmContract
