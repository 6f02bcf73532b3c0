/-!
# Command lines

The grammar of the command line: `dump FILE` or `validate [--out DIR] [--allow-custom] FILE`, with
options and the file in any order. `Command.parse` gives the command or the first fault.

An argument that opens with a dash is an option, except for a single dash. After `--` every argument
is a file. A value is checked only when the next option or file is reached, or the end: a fault in
between is reported first.
-/

namespace WasmContract

/-- What the program is asked to do. -/
inductive Command where
  /-- Print the header and a summary of every section. -/
  | dump (file : String)
  /-- Validate a contract and write its canonical bytes to a directory. -/
  | validate (file out : String) (allowCustom : Bool)
deriving DecidableEq, Repr, Inhabited

/-- Why a command line names no command to run. -/
inductive UsageError where
  /-- There is nothing but the name of the program. -/
  | nothingAsked
  /-- Help is asked for. -/
  | helpAsked
  /-- There is no such command. -/
  | invalidCommand
  /-- There is no such option, or a second file is given. -/
  | unknownArgument
  /-- An option has no value, or a path is empty. -/
  | invalidValue
  /-- A value is given to an option that takes none. -/
  | unexpectedValue
  /-- An option is given twice. -/
  | repeatedOption
  /-- There is no file. -/
  | missingFile
deriving DecidableEq, Repr, Inhabited

namespace Command

/-- The directory that canonical bytes are written to unless another is named. -/
def defaultOut : String := "/tmp"

/-- An argument by its form. -/
inductive Argument where
  /-- Two dashes: no options follow. -/
  | separator
  /-- An option with a name, possibly with a value behind an equals sign. -/
  | long (name : String) (value : Option String)
  /-- An option with a letter; further letters may follow. -/
  | short (letter : Char)
  /-- No option. -/
  | plain

/-- The form of an argument. -/
def Argument.ofString (text : String) : Argument :=
  match text.toList with
  | ['-', '-'] => separator
  | '-' :: '-' :: option =>
    let name := option.takeWhile (· ≠ '=')
    match option.dropWhile (· ≠ '=') with
    | [] => long (String.ofList name) none
    | _ :: value => long (String.ofList name) (some (String.ofList value))
  | '-' :: letter :: _ => short letter
  | _ => plain

/-- A command by its name. -/
inductive Verb where
  /-- `dump`. -/
  | dump
  /-- `validate`. -/
  | validate
deriving DecidableEq, Repr, Inhabited

/-- A value that has been found and not been checked. -/
inductive Pending where
  /-- The file. -/
  | file (path : String)
  /-- The value of `--out`, once it has been found. -/
  | out (path : Option String)
deriving DecidableEq, Repr, Inhabited

/-- What is known of a command in the middle of its arguments. -/
structure Progress where
  /-- The file. -/
  file : Option String := none
  /-- The value of `--out`. -/
  out : Option String := none
  /-- `--allow-custom` is set. -/
  allowCustom : Bool := false
  /-- The value that is to be checked next. -/
  pending : Option Pending := none
  /-- No more options may follow. -/
  separated : Bool := false
deriving DecidableEq, Repr, Inhabited

namespace Progress

/-- Checks the pending value and takes it. -/
def settle (p : Progress) : Except UsageError Progress :=
  let settled := { p with pending := none }
  match p.pending with
  | none => pure settled
  | some (.file path) =>
    if path = "" then throw .invalidValue else pure { settled with file := some path }
  | some (.out none) => throw .invalidValue
  | some (.out (some path)) =>
    if p.out.isSome then throw .repeatedOption
    else if path = "" then throw .invalidValue
    else pure { settled with out := some path }

/-- A file has been found. -/
def HasFile (p : Progress) : Prop :=
  p.file.isSome ∨ p.pending matches some (.file _)

instance (p : Progress) : Decidable p.HasFile := inferInstanceAs (Decidable (_ ∨ _))

/-- Takes an argument that is a file. -/
def takeFile (p : Progress) (path : String) : Except UsageError Progress := do
  if p.HasFile then throw .unknownArgument
  return { (← p.settle) with pending := some (.file path) }

/-- Takes an option with a name. -/
def takeOption (verb : Verb) (p : Progress) (name : String) (value : Option String) :
    Except UsageError Progress :=
  match verb, name with
  | _, "help" => do
    if value.isSome then throw .unexpectedValue
    let _ ← p.settle
    throw .helpAsked
  | .validate, "allow-custom" => do
    if value.isSome then throw .unexpectedValue
    let p ← p.settle
    if p.allowCustom then throw .repeatedOption
    return { p with allowCustom := true }
  | .validate, "out" => do
    let p := { (← p.settle) with pending := some (.out value) }
    if value.isSome then p.settle else return p
  | _, _ => throw .unknownArgument

/-- Takes one argument. -/
def take (verb : Verb) (p : Progress) (text : String) : Except UsageError Progress :=
  if p.separated then p.takeFile text
  else match Argument.ofString text with
    | .separator => pure { p with separated := true }
    | .long name value => p.takeOption verb name value
    | .short 'h' => p.takeOption verb "help" none
    | .short _ => throw .unknownArgument
    | .plain =>
      if p.pending = some (.out none) then pure { p with pending := some (.out (some text)) }
      else p.takeFile text

/-- The command, once all arguments have been taken. -/
def finish (verb : Verb) (p : Progress) : Except UsageError Command := do
  let p ← p.settle
  match p.file with
  | none => throw .missingFile
  | some file =>
    match verb with
    | .dump => return .dump file
    | .validate => return .validate file (p.out.getD defaultOut) p.allowCustom

end Progress

/-- Parses the arguments of a command. -/
def parseArguments (verb : Verb) (arguments : List String) : Except UsageError Command := do
  let progress ← arguments.foldlM (Progress.take verb) {}
  progress.finish verb

/-- Names that stand for a command, the request for help among them. -/
def names : List String := ["dump", "validate", "help"]

/-- The answer to a request for help on the commands listed; commands have no commands of their
own. -/
def help : List String → UsageError
  | [] => .helpAsked
  | [name] => if name ∈ names then .helpAsked else .invalidCommand
  | _ => .invalidCommand

/-- Parses a command line, without the name of the program. -/
def parse : List String → Except UsageError Command
  | [] => throw .nothingAsked
  | first :: arguments =>
    match Argument.ofString first with
    | .separator =>
      match arguments with
      | [] => throw .nothingAsked
      | name :: _ => if name ∈ names then throw .unknownArgument else throw .invalidCommand
    | .long "help" none | .short 'h' => throw .helpAsked
    | .long "help" (some _) => throw .unexpectedValue
    | .long .. | .short _ => throw .unknownArgument
    | .plain =>
      match first with
      | "dump" => parseArguments .dump arguments
      | "validate" => parseArguments .validate arguments
      | "help" => throw (help arguments)
      | _ => throw .invalidCommand

end Command

end WasmContract
