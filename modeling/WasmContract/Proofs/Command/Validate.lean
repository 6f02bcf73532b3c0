import WasmContract.Proofs.Command.Arguments
import WasmContract.Proofs.Command.Disk
import WasmContract.Proofs.Command.Run
import WasmContract.Proofs.Contract.Canonicalization

/-!
# Validating a file

The `validate` command and `canonicalize` are two ways through the same steps: in any monad with
access to files, the command fails with the error of `canonicalize` or else saves the canonical
bytes (`Command.runValidate_eq`). On a disk, a command that fails changes nothing
(`Command.validate_cases`), and one that succeeds adds the one file that holds the canonical
bytes (`Command.validate_agrees`). The record of it says what was written, and where
(`Command.report_of_runValidate`).
-/

namespace WasmContract

/-- The failure of the command for a stream without canonical form. -/
def CommandError.ofCanonical : CanonicalError → CommandError
  | .decode cause => readContract cause
  | .validation cause => invalid cause

/-- The step of the command that fails for a stream without canonical form, then the wording of the
cause; a fault in a section is followed by its own cause. -/
def CanonicalError.chain : CanonicalError → List String
  | decode (.inHeader cause) => ["read and validate module", cause.message]
  | decode (.inSection id offset cause) =>
    ["read and validate module", (ModuleError.inSection id offset cause).message, cause.message]
  | validation cause => ["module validate", cause.message]

/-- The messages of a failure start with the step that failed. -/
theorem CommandError.messages_ofCanonical (e : CanonicalError) :
    (ofCanonical e).messages = e.chain := by
  rcases e with (_ | _) | _ <;> rfl

namespace Command

/-! ### The command in any monad -/

section Monad

variable {m : Type → Type} [Monad m] [MonadFiles m]

/-- Writes the canonical bytes of a file to a directory, under the name of the file, and gives the
record of it. -/
def save (file out : String) (content canonical : List UInt8) :
    ExceptT CommandError m Record := do
  match Path.fileName? file with
  | none => throw (.noFileName file)
  | some name =>
    match ← MonadFiles.writeFile (m := m) (Path.join out name) canonical with
    | .ok () => return .wrote canonical.length content.length (Path.join out name)
    | .error cause => throw (.writeFile (Path.join out name) cause)

/-- **The command and the library agree.** Between reading the file and saving its canonical bytes
there is nothing but `canonicalize`. -/
theorem runValidate_eq (file out : String) (options : Options) :
    runValidate (m := m) file out options = contentOf file >>= fun content =>
      match canonicalize options content with
      | .ok canonical => save file out content canonical
      | .error e => throw (CommandError.ofCanonical e) := by
  refine congrArg (contentOf file >>= ·) (funext fun content => ?_)
  rw [canonicalize_eq]
  cases Contract.read content with
  | error e => rfl
  | ok c =>
    have hcheck : c.validate options = c.check options := c.outcome_validateLogged options
    simp only [hcheck, Except.ok_mapError, Except.ok_bind]
    cases c.check options <;> rfl

end Monad

/-! ### The command on a disk -/

variable {d : Disk} {arguments : List String} {file out : String} {allowCustom : Bool}
  {content canonical : List UInt8} {dir : List String}

/-- Saving bytes is nothing but a write, or fails and changes nothing. -/
theorem save_onDisk (d : Disk) (file out : String) (content canonical : List UInt8) :
    (save (m := DiskM) file out content canonical).run.run d =
      match Path.fileName? file with
      | none => (.error (.noFileName file), d)
      | some name =>
        match d.write (Path.join out name) canonical with
        | .ok d' => (.ok (.wrote canonical.length content.length (Path.join out name)), d')
        | .error cause => (.error (.writeFile (Path.join out name) cause), d) := by
  rw [save]
  cases Path.fileName? file with
  | none => rfl
  | some name =>
    dsimp only
    rw [run_lift_bind, writeFile_onDisk]
    cases d.write (Path.join out name) canonical <;> rfl

/-- What the command does step by step: a file that cannot be read and bytes without canonical form
leave the disk as it is, and all else is saving the canonical bytes. -/
theorem runValidate_onDisk (d : Disk) (file out : String) (options : Options) :
    (runValidate (m := DiskM) file out options).run.run d =
      match d.read file with
      | .ok content =>
        match canonicalize options content with
        | .ok canonical => (save (m := DiskM) file out content canonical).run.run d
        | .error e => (.error (.ofCanonical e), d)
      | .error cause => (.error (.readFile file cause), d) := by
  rw [runValidate_eq, contentOf_bind_onDisk]
  cases d.read file with
  | error cause => rfl
  | ok content =>
    dsimp only
    cases canonicalize options content <;> rfl

/-- Of the record that is made, nothing is left on the disk. -/
theorem validate_onDisk (d : Disk) (file out : String) (allowCustom : Bool) :
    onDisk (.validate file out allowCustom) d =
      ((runValidate (m := DiskM) file out { allowCustom }).run.run d).map
        (Except.map fun _ => ()) id := by
  rw [onDisk, run, run_bind]
  rcases (runValidate (m := DiskM) file out { allowCustom }).run.run d with ⟨_ | _, _⟩ <;> rfl

/-- **The record of a write** tells the sizes of the canonical bytes and of the file that they were
made of, and the path that they were written to. The first size is never more than the second. -/
theorem report_of_runValidate {options : Options} {record : Record} {d' : Disk}
    (h : (runValidate (m := DiskM) file out options).run.run d = (.ok record, d')) :
    ∃ content canonical destination, d.read file = .ok content ∧
      canonicalize options content = .ok canonical ∧
      d.write destination canonical = .ok d' ∧
      record = .wrote canonical.length content.length destination ∧
      canonical.length ≤ content.length := by
  rw [runValidate_onDisk] at h
  split at h
  case h_2 => cases h
  case h_1 content hread =>
    split at h
    case h_2 => cases h
    case h_1 canonical hcanonical =>
      rw [save_onDisk] at h
      split at h
      case h_1 => cases h
      case h_2 name hname =>
        split at h
        case h_2 => cases h
        case h_1 hwrite =>
          cases h
          exact ⟨content, canonical, Path.join out name, hread, hcanonical, hwrite, rfl,
            length_le_of_canonicalize hcanonical⟩

/-- **All or nothing.** A command that fails changes nothing, and one that succeeds has given one
file a content. Neither prints anything. -/
theorem validate_cases (d : Disk) (file out : String) (allowCustom : Bool) :
    (∃ failure, onDisk (.validate file out allowCustom) d = (.error failure, d)) ∨
      ∃ place content, ¬d.IsDirectory place ∧
        onDisk (.validate file out allowCustom) d = (.ok (), d.put place content) := by
  rw [validate_onDisk, runValidate_onDisk]
  cases d.read file with
  | error cause => exact .inl ⟨_, rfl⟩
  | ok content =>
    dsimp only
    cases canonicalize { allowCustom } content with
    | error e => exact .inl ⟨_, rfl⟩
    | ok canonical =>
      dsimp only
      rw [save_onDisk]
      cases Path.fileName? file with
      | none => exact .inl ⟨_, rfl⟩
      | some name =>
        dsimp only
        rcases d.write_cases (Path.join out name) canonical with ⟨cause, h⟩ | ⟨place, hplace, h⟩
        · rw [h]
          exact .inl ⟨_, rfl⟩
        · rw [h]
          exact .inr ⟨place, canonical, hplace, rfl⟩

/-- Directories and files remain apart, and the directories a tree. -/
theorem wellFormed_validate (hd : d.WellFormed) (file out : String) (allowCustom : Bool) :
    (onDisk (.validate file out allowCustom) d).2.WellFormed := by
  rcases validate_cases d file out allowCustom with ⟨failure, h⟩ | ⟨place, content, hplace, h⟩
  · rw [h]
    exact hd
  · rw [h]
    exact hd.put hplace content

/-- A command line asks for the validation of a file with a given content, and there is a directory
to write to. -/
structure Ready (d : Disk) (arguments : List String) (file out : String) (allowCustom : Bool)
    (content : List UInt8) (dir : List String) : Prop where
  /-- The command line is understood. -/
  parse : parse arguments = .ok (.validate file out allowCustom)
  /-- The disk is a tree. -/
  wellFormed : d.WellFormed
  /-- The file can be read. -/
  read : d.read file = .ok content
  /-- The directory can take a file of the same name. -/
  accepts : d.Accepts file out dir

/-- Canonical bytes are saved in the directory, under the name of the file. -/
theorem Ready.validate_onDisk (h : Ready d arguments file out allowCustom content dir)
    (hcanonical : canonicalize { allowCustom } content = .ok canonical) :
    ∃ above name, d.resolve file = .ok (above ++ [name]) ∧
      onDisk (.validate file out allowCustom) d = (.ok (), d.put (dir ++ [name]) canonical) := by
  obtain ⟨above, name, hname, hfile, hresolve⟩ := h.wellFormed.exists_name_of_read h.read
  have hout : out ≠ "" := fun hout =>
    empty_notMem_paths_of_parse h.parse (hout ▸ List.mem_cons_of_mem file List.mem_cons_self)
  refine ⟨above, name, hresolve, ?_⟩
  rw [Command.validate_onDisk, runValidate_onDisk, h.read]
  dsimp only
  rw [hcanonical]
  dsimp only
  rw [save_onDisk, hfile]
  dsimp only
  rw [h.accepts.write hout hname hfile]
  rfl

/-- **The command and the library agree, and the command does all or nothing.** Validation into an
empty directory succeeds just if the content of the file has a canonical form. Then the directory
holds one file, under the name of the file that was read, with the canonical bytes, and whoever
validates these bytes writes them again. Otherwise the disk is as before, and the messages are those
of the step that failed and of the error of `canonicalize`. -/
theorem validate_agrees (h : Ready d arguments file out allowCustom content dir)
    (hempty : d.EmptyAt dir) :
    ((onDisk (.validate file out allowCustom) d).1 = .ok () ↔
      ∃ canonical, canonicalize { allowCustom } content = .ok canonical) ∧
    (∀ canonical, canonicalize { allowCustom } content = .ok canonical →
      (∃ above name, d.resolve file = .ok (above ++ [name]) ∧
        onDisk (.validate file out allowCustom) d = (.ok (), d.put (dir ++ [name]) canonical) ∧
        (d.put (dir ++ [name]) canonical).filesBelow dir = [([name], canonical)]) ∧
      ∀ d' arguments' file' out' allowCustom' dir',
        Ready d' arguments' file' out' allowCustom' canonical dir' →
        ∃ above name, d'.resolve file' = .ok (above ++ [name]) ∧
          onDisk (.validate file' out' allowCustom') d' =
            (.ok (), d'.put (dir' ++ [name]) canonical)) ∧
    ∀ e, canonicalize { allowCustom } content = .error e →
      ∃ failure, onDisk (.validate file out allowCustom) d = (.error failure, d) ∧
        failure.messages = e.chain := by
  have hsuccess : ∀ canonical, canonicalize { allowCustom } content = .ok canonical →
      ∃ above name, d.resolve file = .ok (above ++ [name]) ∧
        onDisk (.validate file out allowCustom) d = (.ok (), d.put (dir ++ [name]) canonical) :=
    fun canonical hcanonical => h.validate_onDisk hcanonical
  have hfailure : ∀ e, canonicalize { allowCustom } content = .error e →
      onDisk (.validate file out allowCustom) d = (.error (.ofCanonical e), d) := by
    intro e he
    rw [Command.validate_onDisk, runValidate_onDisk, h.read]
    dsimp only
    rw [he]
    rfl
  refine ⟨⟨fun hok => ?_, ?_⟩, fun canonical hcanonical => ⟨?_, ?_⟩, fun e he => ?_⟩
  · cases he : canonicalize { allowCustom } content with
    | ok canonical => exact ⟨canonical, rfl⟩
    | error e =>
      rw [hfailure e he] at hok
      cases hok
  · rintro ⟨canonical, hcanonical⟩
    obtain ⟨above, name, -, hrun⟩ := hsuccess canonical hcanonical
    rw [hrun]
  · obtain ⟨above, name, hresolve, hrun⟩ := hsuccess canonical hcanonical
    exact ⟨above, name, hresolve, hrun, hempty.filesBelow_put name canonical⟩
  · intro d' arguments' file' out' allowCustom' dir' h'
    exact h'.validate_onDisk (canonicalize_of_canonicalize hcanonical _)
  · exact ⟨_, hfailure e he, CommandError.messages_ofCanonical e⟩

/-- A contract with a custom section is written without it. -/
theorem validate_agrees_custom_section :
    let canonical : List UInt8 := [0x00, 0x61, 0x73, 0x6d, 0x01, 0x00, 0x00, 0x00,
      0x01, 0x04, 0x01, 0x60, 0x00, 0x00, 0x03, 0x02, 0x01, 0x00, 0x05, 0x03, 0x01, 0x00, 0x01,
      0x07, 0x11, 0x02, 0x04, 0x6d, 0x61, 0x69, 0x6e, 0x00, 0x00,
      0x06, 0x6d, 0x65, 0x6d, 0x6f, 0x72, 0x79, 0x02, 0x00, 0x0a, 0x04, 0x01, 0x02, 0x00, 0x0b]
    let bytes := canonical ++ [0x00, 0x02, 0x01, 0x61]
    let d : Disk := {
      directories := [["work"], ["work", "out"]]
      files := [(["work", "input.wasm"], bytes)]
      workingDirectory := ["work"]
    }
    let arguments := ["validate", "--allow-custom", "input.wasm", "--out", "out"]
    Ready d arguments "input.wasm" "out" true bytes ["work", "out"] ∧ d.EmptyAt ["work", "out"] ∧
      canonicalize { allowCustom := true } bytes = .ok canonical ∧
      (onDisk (.validate "input.wasm" "out" true) d).2.filesBelow ["work", "out"] =
        [(["input.wasm"], canonical)] := by
  intro canonical bytes d arguments
  have hname : Path.fileName? "input.wasm" = some "input.wasm" := by decide +kernel
  have hready : Ready d arguments "input.wasm" "out" true bytes ["work", "out"] := {
    parse := by decide +kernel
    wellFormed := by decide +kernel
    read := by decide +kernel
    accepts := {
      resolve := by decide +kernel
      isDirectory := by decide +kernel
      free := fun name h => by
        cases hname.symm.trans h
        decide +kernel
      size := fun name h => by
        cases hname.symm.trans h
        decide +kernel
    }
  }
  have hempty : d.EmptyAt ["work", "out"] := {
    files := by decide +kernel
    directories := by
      rintro steps (h | h)
      · cases h
      · simpa [d] using h
  }
  have hcanonical : canonicalize { allowCustom := true } bytes = .ok canonical := by
    decide +kernel
  have hresolve : d.resolve "input.wasm" = .ok (["work"] ++ ["input.wasm"]) := by decide +kernel
  obtain ⟨above, name, hplace, hrun, hfiles⟩ :=
    ((validate_agrees hready hempty).2.1 canonical hcanonical).1
  obtain ⟨-, hname⟩ := List.append_inj' (Except.ok.inj (hplace.symm.trans hresolve)) rfl
  cases hname
  refine ⟨hready, hempty, hcanonical, ?_⟩
  rw [hrun, hfiles]

end Command

end WasmContract
