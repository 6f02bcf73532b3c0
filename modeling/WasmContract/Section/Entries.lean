import WasmContract.Leb128.Signed
import WasmContract.Reader.Counted
import WasmContract.Section.Basic

/-!
# Readers of section entries

One reader for each type of entry that a section may list, and for the parts they are made of. All
of them read their fields in the order in which the format writes them, and fail at the first field
that cannot be read.
-/

namespace WasmContract

open Reader

/-- Reads a value type. -/
def ValueType.reader : Reader ValueType := do
  let code ← Leb128.i7
  match ValueType.ofCode? code.toInt with
  | some type => return type
  | none => throw (.invalidValueType code.toInt)

/-- Reads a function type. Its results are counted only after all of them have been read. -/
def FuncType.reader : Reader FuncType := do
  let form ← Leb128.i7
  if form.toInt ≠ ValueType.func.code then throw (.invalidTypeForm form.toInt)
  let params ← vec ValueType.reader
  let results ← vec ValueType.reader
  if 1 < results.length then throw (.tooManyResults results.length)
  return { params, results }

/-- Reads an external kind. -/
def ExternalKind.reader : Reader ExternalKind := do
  let code ← byte
  match ExternalKind.ofCode? code.toNat with
  | some kind => return kind
  | none => throw (.invalidExternalKind code)

/-- Reads limits. -/
def Limits.reader : Reader Limits := do
  let flags ← Leb128.u32
  let initial ← Leb128.u32
  if Limits.HasMaximum flags then
    let maximum ← Leb128.u32
    return { flags, initial, maximum := some maximum }
  else
    return { flags, initial, maximum := none }

/-- Reads a table type. -/
def TableType.reader : Reader TableType := do
  let element ← ValueType.reader
  let limits ← Limits.reader
  return { element, limits }

/-- Reads a memory type. -/
def MemoryType.reader : Reader MemoryType := do
  let limits ← Limits.reader
  return { limits }

/-- Reads the type of a global variable. -/
def GlobalType.reader : Reader GlobalType := do
  let content ← ValueType.reader
  let mutable ← Leb128.u1
  return { content, mutable }

/-- Reads a constant instruction with its operand, a 32-bit operand widened with its sign. -/
def InitExpr.constant : Reader (Opcode × Int64) := do
  let code ← byte
  match Opcode.ofCode? code.toNat with
  | some .i32Const =>
    let value ← Leb128.i32
    return (.i32Const, value.toInt64)
  | some .i64Const =>
    let value ← Leb128.i64
    return (.i64Const, value)
  | _ => throw (.invalidOpcode code)

/-- Reads a constant initialiser. -/
def InitExpr.reader : Reader InitExpr := do
  let ((opcode, value), raw) ← captured do
    let instruction ← InitExpr.constant
    let code ← byte
    if code ≠ Opcode.finish.code then throw (.invalidOpcode code)
    return instruction
  return { opcode, value, raw }

/-- Reads a global variable. -/
def GlobalVariable.reader : Reader GlobalVariable := do
  let type ← GlobalType.reader
  let init ← InitExpr.reader
  return { type, init }

/-- Reads the description of an imported entity of a given kind. -/
def ImportDesc.reader : ExternalKind → Reader ImportDesc
  | .func => .func <$> Leb128.u32
  | .table => .table <$> TableType.reader
  | .memory => .memory <$> MemoryType.reader
  | .global => .global <$> GlobalType.reader

/-- Reads an import. -/
def Import.reader : Reader Import := do
  let moduleName ← Reader.name
  let fieldName ← Reader.name
  let kind ← ExternalKind.reader
  let desc ← ImportDesc.reader kind
  return { moduleName, fieldName, desc }

/-- Reads an export. -/
def Export.reader : Reader Export := do
  let name ← Reader.name
  let kind ← ExternalKind.reader
  let index ← Leb128.u32
  return { name, kind, index }

/-- Reads an element segment. -/
def ElementSegment.reader : Reader ElementSegment := do
  let table ← Leb128.u32
  let offset ← InitExpr.reader
  let functions ← vec Leb128.u32
  return { table, offset, functions }

/-- Reads a group of local variables. -/
def LocalGroup.reader : Reader LocalGroup := do
  let count ← Leb128.u32
  let type ← ValueType.reader
  return { count, type }

/-- Reads a function body. Its local variables are read within the size the body announces, and
what is left of that is its code. -/
def FunctionBody.reader : Reader FunctionBody := do
  let body ← sized
  let (locals, code) ← within body (vec LocalGroup.reader)
  return { locals, code }

/-- Reads a data segment. -/
def DataSegment.reader : Reader DataSegment := do
  let memory ← Leb128.u32
  let offset ← InitExpr.reader
  let data ← sized
  return { memory, offset, data }

/-- Reads the name of a function. -/
def FunctionName.reader : Reader FunctionName := do
  let index ← Leb128.u32
  let name ← Reader.name
  return { index, name }

end WasmContract
