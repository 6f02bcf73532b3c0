import WasmContract.Module.Traversal
import WasmContract.Section.Payload

/-!
# Modules

A `Module` is a header and all sections in the order of the stream. `Module.decode` is lenient:
bytes that a section leaves over are reported and passed over.
-/

namespace WasmContract

/-- A decoded module. -/
structure Module where
  /-- The header. -/
  header : Header := {}
  /-- The sections, in the order of the stream. -/
  sections : List Section := []
deriving DecidableEq, Repr, Inhabited

namespace Module

/-- Adds the section in a frame to a module. -/
def absorb (offset : Nat) (m : Module) (frame : Frame) : Logged DecodeError Module := do
  let (content, unread) ← Section.ofPayload frame.id frame.payload
  unless unread.isEmpty do
    .report (.skipped content.kind unread.length offset)
  .report (.decoded content.kind offset content.size)
  return { m with sections := m.sections ++ [content] }

/-- Decodes a module and keeps records of the work. -/
def decodeLogged (bytes : List UInt8) : Logged ModuleError Module :=
  traverse (fun header => { header }) absorb bytes

/-- Decodes a module. -/
def decode (bytes : List UInt8) : Except ModuleError Module := (decodeLogged bytes).outcome

/-! ### The first section of each kind -/

/-- The function types in the first section of types. -/
def types? (m : Module) : Option (List FuncType) := m.sections.findSome? Section.types?

/-- The imports in the first section of imports. -/
def imports? (m : Module) : Option (List Import) := m.sections.findSome? Section.imports?

/-- The type indices in the first section of functions. -/
def functions? (m : Module) : Option (List UInt32) := m.sections.findSome? Section.functions?

/-- The exports in the first section of exports. -/
def exports? (m : Module) : Option (List Export) := m.sections.findSome? Section.exports?

/-- The function named by the first start section. -/
def start? (m : Module) : Option UInt32 := m.sections.findSome? Section.start?

/-- The names in the first name section. -/
def names? (m : Module) : Option NameSection := m.sections.findSome? Section.names?

end Module

end WasmContract
