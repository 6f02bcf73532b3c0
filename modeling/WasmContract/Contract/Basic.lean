import WasmContract.Contract.Exports
import WasmContract.Module.Traversal
import WasmContract.Section.Payload

/-!
# Contracts

A `Contract` is a module read strictly, reduced to what its validity depends on, together with its
canonical bytes. The canonical bytes are those of the module without its start and custom sections,
and with just the required exports; every other section is copied as found.

Reading is strict about sections: bytes that a section leaves over are an error. Whether the module
is a valid contract is a question of its own, see `Contract.validate`.
-/

namespace WasmContract

/-- A module read strictly. Entries of sections of one kind are joined in the order of the
stream. -/
structure Contract where
  /-- The function types. -/
  types : List FuncType := []
  /-- The imports. -/
  imports : List Import := []
  /-- The type indices of the functions the module defines. -/
  functions : List UInt32 := []
  /-- The exports that are kept. -/
  exports : List Export := []
  /-- There is a start section. -/
  hasStart : Bool := false
  /-- There is a custom section. -/
  hasCustom : Bool := false
  /-- The canonical bytes. -/
  bytes : List UInt8 := []
deriving DecidableEq, Repr, Inhabited

namespace Contract

/-- Adds bytes at the end of the canonical bytes. -/
def emit (c : Contract) (bytes : List UInt8) : Contract := { c with bytes := c.bytes ++ bytes }

/-- Adds the entries of an export section; the section is written anew with the entries that are
kept, and not at all if there are none. -/
def absorbExports (c : Contract) (entries : List Export) : Except DecodeError Contract := do
  let kept := Exports.keep c.exports entries
  if kept.isEmpty then return c
  let rebuilt ← Exports.encode kept
  return { c with exports := c.exports ++ kept }.emit rebuilt

/-- Adds a section that was read without anything left over, given its bytes as found. -/
def absorbSection (c : Contract) (bytes : List UInt8) : Section → Logged DecodeError Contract
  | .types entries => return { c with types := c.types ++ entries }.emit bytes
  | .imports entries => return { c with imports := c.imports ++ entries }.emit bytes
  | .functions entries => return { c with functions := c.functions ++ entries }.emit bytes
  | .exports entries => .ofExcept (c.absorbExports entries)
  | .start _ => return { c with hasStart := true }
  | .custom content => do
    .report (.dropped content.name)
    return { c with hasCustom := true }
  | .tables _ | .memories _ | .globals _ | .elements _ | .bodies _ | .data _ =>
    return c.emit bytes

/-- Adds the section in a frame. -/
def absorb (c : Contract) (frame : Frame) : Logged DecodeError Contract := do
  let (content, unread) ← Section.ofPayload frame.id frame.payload
  if unread.isEmpty then c.absorbSection frame.bytes content
  else
    .report (.unread content.kind unread.length)
    .fail (.trailingBytes content.kind unread.length)

/-- Reads a module strictly and keeps records of the work. -/
def readLogged (bytes : List UInt8) : Logged ModuleError Contract :=
  traverse (fun _ => { bytes := bytes.take Header.size }) (fun _ => absorb) bytes

/-- Reads a module strictly. -/
def read (bytes : List UInt8) : Except ModuleError Contract := (readLogged bytes).outcome

/-! ### The function index space -/

/-- The type indices of all imported functions. Imports of other kinds have no function index. -/
def importedFunctions (c : Contract) : List UInt32 := c.imports.filterMap (·.desc.funcType?)

/-- The type of the function with a given index. Imported functions come first, then those that the
module defines. -/
def funcType? (c : Contract) (index : UInt32) : Option FuncType := do
  let imported := c.importedFunctions
  let typeIndex ←
    match imported[index.toNat]? with
    | some typeIndex => some typeIndex
    | none => c.functions[index.toNat - imported.length]?
  c.types[typeIndex.toNat]?

end Contract

end WasmContract
