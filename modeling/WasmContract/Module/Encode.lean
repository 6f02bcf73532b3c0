import WasmContract.Module.Basic
import WasmContract.Section.Encode

/-!
# Writing modules

`Module.encode` gives the standard encoding of a module: its header, then its sections in order.
-/

namespace WasmContract.Module

/-- The bytes of a module. -/
def encode (m : Module) : List UInt8 := m.header.encode ++ m.sections.flatMap Section.encode

example : (encode { sections := [.start 0] }).length = 11 := by decide

end WasmContract.Module
