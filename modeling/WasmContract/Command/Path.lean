/-!
# Paths

Path names as text: components are separated by slashes, and empty components and single dots stand
for no step at all. A path and its components have a largest size.
-/

namespace WasmContract.Path

/-- The largest size of a path in bytes. -/
def maxSize : Nat := 4095

/-- The largest size in bytes of a component that is a step. -/
def maxComponentSize : Nat := 255

/-- The text between slashes. -/
def components (path : String) : List String :=
  (path.toList.splitOn '/').map String.ofList

/-- A path that starts at the root and not at the working directory. -/
def IsAbsolute (path : String) : Prop := path.toList.head? = some '/'

instance (path : String) : Decidable (IsAbsolute path) := inferInstanceAs (Decidable (_ = _))

/-- The last component that is a step, or nothing if there is none or it leads upwards. -/
def fileName? (path : String) : Option String :=
  match ((components path).filter fun c => c ≠ "" ∧ c ≠ ".").getLast? with
  | some ".." => none
  | last => last

/-- The path of a file in a directory. -/
def join (directory file : String) : String :=
  if directory.toList.getLast? = some '/' then directory ++ file
  else directory ++ "/" ++ file

example : fileName? "a/b.wasm/" = some "b.wasm" := by decide

example : fileName? "a/.." = none := by decide

example : join "out" "b.wasm" = "out/b.wasm" := by decide

end WasmContract.Path
