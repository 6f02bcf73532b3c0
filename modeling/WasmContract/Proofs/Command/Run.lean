import WasmContract.Command.Disk
import WasmContract.Command.Run

/-!
# Commands on a disk

What a command does when it runs on a disk: it fails with an error or succeeds, and leaves a disk
(`Command.onDisk`). The outcome of a compound computation is told from that of its parts, and
reading a file changes nothing (`Command.contentOf_onDisk`).
-/

namespace WasmContract.Command

variable {α β : Type}

/-- The outcome of a command on a disk, and the disk it leaves. -/
def onDisk (command : Command) (d : Disk) : Except CommandError Unit × Disk :=
  (command.run (m := DiskM)).run.run d

/-- A computation goes on with the disk that the first part leaves, unless this part fails. -/
theorem run_bind (first : ExceptT CommandError DiskM α) (next : α → ExceptT CommandError DiskM β)
    (d : Disk) : (first >>= next).run.run d =
      match first.run.run d with
      | (.ok a, d') => (next a).run.run d'
      | (.error cause, d') => (.error cause, d') := by
  rw [ExceptT.run_bind, StateT.run_bind]
  rcases first.run.run d with ⟨_ | _, _⟩ <;> rfl

/-- An action that is part of a computation never fails by itself. -/
theorem run_lift_bind (action : DiskM α) (next : α → ExceptT CommandError DiskM β) (d : Disk) :
    ((liftM action : ExceptT CommandError DiskM α) >>= next).run.run d =
      (next (action.run d).1).run.run (action.run d).2 :=
  rfl

theorem writeFile_onDisk (d : Disk) (path : String) (bytes : List UInt8) :
    (MonadFiles.writeFile (m := DiskM) path bytes).run d =
      match d.write path bytes with
      | .ok d' => (.ok (), d')
      | .error cause => (.error cause, d) := by
  simp only [MonadFiles.writeFile, StateT.run_bind, StateT.run_get, pure_bind]
  cases d.write path bytes <;> rfl

/-- Reading a file changes nothing; a failure names the file. -/
theorem contentOf_onDisk (d : Disk) (file : String) :
    (contentOf (m := DiskM) file).run.run d = ((d.read file).mapError (.readFile file), d) := by
  have hread : (MonadFiles.readFile (m := DiskM) file).run d = (d.read file, d) := rfl
  rw [contentOf, run_lift_bind, hread]
  cases d.read file <;> rfl

/-- A command that starts by reading a file goes on with the content of the file and the same
disk. -/
theorem contentOf_bind_onDisk (d : Disk) (file : String)
    (next : List UInt8 → ExceptT CommandError DiskM β) :
    (contentOf (m := DiskM) file >>= next).run.run d =
      match d.read file with
      | .ok content => (next content).run.run d
      | .error cause => (.error (.readFile file cause), d) := by
  rw [run_bind, contentOf_onDisk]
  cases d.read file <;> rfl

end WasmContract.Command
