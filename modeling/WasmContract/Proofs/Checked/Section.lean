import WasmContract.Proofs.Checked.Reader
import WasmContract.Proofs.Section.Decoded

/-!
# Checked decoding of sections

The readers of section entries and the decoders of payloads with checked operations. Each is the
unchecked one, on every input. The slice of an initialiser and of a frame is within the input, as a
reader leaves an end of what it is given, and the number of results that a function type may have
too many is below the number announced for them.
-/

namespace WasmContract

open Reader Leb128 Checked

/-! ### Entries -/

/-- Reads a value type. -/
def ValueType.checkedReader : CheckedReader ValueType := do
  let code ← checkedI7
  match ValueType.ofCode? code.toInt with
  | some type => return type
  | none => throw (.invalidValueType code.toInt)

@[simp] theorem ValueType.checkedReader_eq : checkedReader = reader.inRange := by
  rw [checkedReader, checkedI7_eq, reader, inRange_bind]
  refine bind_congr fun code => ?_
  cases ofCode? code.toInt <;> rfl

/-- Reads a function type. The number of its results is converted to 32 bits for the error. -/
def FuncType.checkedReader : CheckedReader FuncType := do
  let form ← checkedI7
  if form.toInt ≠ ValueType.func.code then throw (.invalidTypeForm form.toInt)
  let params ← checkedVec ValueType.checkedReader
  let results ← checkedVec ValueType.checkedReader
  if 1 < results.length then
    let count ← toUInt32? results.length
    throw (.tooManyResults count.toNat)
  return { params, results }

/-- Results were announced by a word of 32 bits, so their number is converted without loss. -/
@[simp] theorem FuncType.checkedReader_eq : checkedReader = reader.inRange := by
  have hresults : ∀ params, ((vec ValueType.reader).inRange >>= fun results => do
      if 1 < results.length then
        let count ← toUInt32? results.length
        throw (.tooManyResults count.toNat)
      return { params, results } : CheckedReader FuncType) = (do
        let results ← vec ValueType.reader
        if 1 < results.length then throw (.tooManyResults results.length)
        return { params, results } : Reader FuncType).inRange := by
    refine fun params => inRange_bind_of_ok fun input results rest h => ?_
    -- no more results are read than 32 bits can announce
    have hlength := ((Ensures.trivial ValueType.reader).vec h).1
    rw [toUInt32?_of_lt hlength]
    by_cases hone : 1 < results.length
    · simp only [if_pos hone, Reader.some_bind, toNat_toUInt32 hlength]
      rfl
    · simp only [if_neg hone]
      rfl
  simp only [checkedReader, reader, checkedI7_eq, ValueType.checkedReader_eq, checkedVec_inRange,
    hresults, inRange_bind, inRange_ite, inRange_throw]

/-- Reads limits. -/
def Limits.checkedReader : CheckedReader Limits := do
  let flags ← checkedU32
  let initial ← checkedU32
  if Limits.HasMaximum flags then
    let maximum ← checkedU32
    return { flags, initial, maximum := some maximum }
  else
    return { flags, initial, maximum := none }

@[simp] theorem Limits.checkedReader_eq : checkedReader = reader.inRange := by
  simp only [checkedReader, reader, checkedU32_eq, inRange_bind, inRange_ite, inRange_pure]

/-- Reads a table type. -/
def TableType.checkedReader : CheckedReader TableType := do
  let element ← ValueType.checkedReader
  let limits ← Limits.checkedReader
  return { element, limits }

@[simp] theorem TableType.checkedReader_eq : checkedReader = reader.inRange := by
  simp only [checkedReader, reader, ValueType.checkedReader_eq, Limits.checkedReader_eq,
    inRange_bind, inRange_pure]

/-- Reads a memory type. -/
def MemoryType.checkedReader : CheckedReader MemoryType := do
  let limits ← Limits.checkedReader
  return { limits }

@[simp] theorem MemoryType.checkedReader_eq : checkedReader = reader.inRange := by
  simp only [checkedReader, reader, Limits.checkedReader_eq, inRange_bind, inRange_pure]

/-- Reads the type of a global variable. -/
def GlobalType.checkedReader : CheckedReader GlobalType := do
  let content ← ValueType.checkedReader
  let mutable ← checkedU1
  return { content, mutable }

@[simp] theorem GlobalType.checkedReader_eq : checkedReader = reader.inRange := by
  simp only [checkedReader, reader, ValueType.checkedReader_eq, checkedU1_eq, inRange_bind,
    inRange_pure]

namespace InitExpr

/-- Reads a constant instruction with its operand. -/
def checkedConstant : CheckedReader (Opcode × Int64) := do
  let code ← byte.inRange
  match Opcode.ofCode? code.toNat with
  | some .i32Const =>
    let value ← checkedI32
    return (.i32Const, value.toInt64)
  | some .i64Const =>
    let value ← checkedI64
    return (.i64Const, value)
  | _ => throw (.invalidOpcode code)

/-- A constant is read in range, or its opcode is refused. -/
@[simp] theorem checkedConstant_eq : checkedConstant = constant.inRange := by
  rw [checkedConstant, constant, inRange_bind]
  refine bind_congr fun code => ?_
  rcases Opcode.ofCode? code.toNat with _ | (_ | _ | _)
  · rfl
  · rfl
  · simp only [checkedI32_eq, inRange_bind, inRange_pure]
  · simp only [checkedI64_eq, inRange_bind, inRange_pure]

/-- Reads a constant initialiser with the slice that it was read from. -/
def checkedReader : CheckedReader InitExpr := do
  let ((opcode, value), raw) ← checkedCaptured do
    let instruction ← checkedConstant
    let code ← byte.inRange
    if code ≠ Opcode.finish.code then throw (.invalidOpcode code)
    return instruction
  return { opcode, value, raw }

@[simp] theorem checkedReader_eq : checkedReader = reader.inRange := by
  have hexpression := checkedCaptured_inRange lawful_expression
  simp only [expression, inRange_bind, inRange_ite, inRange_throw, inRange_pure] at hexpression
  simp only [checkedReader, reader, checkedConstant_eq, hexpression, inRange_bind, inRange_pure]

end InitExpr

/-- Reads a global variable. -/
def GlobalVariable.checkedReader : CheckedReader GlobalVariable := do
  let type ← GlobalType.checkedReader
  let init ← InitExpr.checkedReader
  return { type, init }

@[simp] theorem GlobalVariable.checkedReader_eq : checkedReader = reader.inRange := by
  simp only [checkedReader, reader, GlobalType.checkedReader_eq, InitExpr.checkedReader_eq,
    inRange_bind, inRange_pure]

/-- Reads the description of an imported entity of a given kind. -/
def ImportDesc.checkedReader : ExternalKind → CheckedReader ImportDesc
  | .func => .func <$> checkedU32
  | .table => .table <$> TableType.checkedReader
  | .memory => .memory <$> MemoryType.checkedReader
  | .global => .global <$> GlobalType.checkedReader

@[simp] theorem ImportDesc.checkedReader_eq (kind : ExternalKind) :
    checkedReader kind = (reader kind).inRange := by
  cases kind <;> simp [checkedReader, reader]

/-- Reads an import. -/
def Import.checkedReader : CheckedReader Import := do
  let moduleName ← checkedName
  let fieldName ← checkedName
  let kind ← ExternalKind.reader.inRange
  let desc ← ImportDesc.checkedReader kind
  return { moduleName, fieldName, desc }

@[simp] theorem Import.checkedReader_eq : checkedReader = reader.inRange := by
  simp only [checkedReader, reader, checkedName_eq, ImportDesc.checkedReader_eq, inRange_bind,
    inRange_pure]

/-- Reads an export. -/
def Export.checkedReader : CheckedReader Export := do
  let name ← checkedName
  let kind ← ExternalKind.reader.inRange
  let index ← checkedU32
  return { name, kind, index }

@[simp] theorem Export.checkedReader_eq : checkedReader = reader.inRange := by
  simp only [checkedReader, reader, checkedName_eq, checkedU32_eq, inRange_bind, inRange_pure]

/-- Reads an element segment. -/
def ElementSegment.checkedReader : CheckedReader ElementSegment := do
  let table ← checkedU32
  let offset ← InitExpr.checkedReader
  let functions ← checkedVec checkedU32
  return { table, offset, functions }

@[simp] theorem ElementSegment.checkedReader_eq : checkedReader = reader.inRange := by
  simp only [checkedReader, reader, checkedU32_eq, InitExpr.checkedReader_eq, checkedVec_inRange,
    inRange_bind, inRange_pure]

/-- Reads a group of local variables. -/
def LocalGroup.checkedReader : CheckedReader LocalGroup := do
  let count ← checkedU32
  let type ← ValueType.checkedReader
  return { count, type }

@[simp] theorem LocalGroup.checkedReader_eq : checkedReader = reader.inRange := by
  simp only [checkedReader, reader, checkedU32_eq, ValueType.checkedReader_eq, inRange_bind,
    inRange_pure]

/-- Reads a function body. -/
def FunctionBody.checkedReader : CheckedReader FunctionBody := do
  let body ← checkedSized
  let (locals, code) ← checkedWithin body (checkedVec LocalGroup.checkedReader)
  return { locals, code }

@[simp] theorem FunctionBody.checkedReader_eq : checkedReader = reader.inRange := by
  simp only [checkedReader, reader, checkedSized_eq, LocalGroup.checkedReader_eq,
    checkedVec_inRange, checkedWithin_inRange, inRange_bind, inRange_pure]

/-- Reads a data segment. -/
def DataSegment.checkedReader : CheckedReader DataSegment := do
  let memory ← checkedU32
  let offset ← InitExpr.checkedReader
  let data ← checkedSized
  return { memory, offset, data }

@[simp] theorem DataSegment.checkedReader_eq : checkedReader = reader.inRange := by
  simp only [checkedReader, reader, checkedU32_eq, InitExpr.checkedReader_eq, checkedSized_eq,
    inRange_bind, inRange_pure]

/-- Reads the name of a function. -/
def FunctionName.checkedReader : CheckedReader FunctionName := do
  let index ← checkedU32
  let name ← checkedName
  return { index, name }

@[simp] theorem FunctionName.checkedReader_eq : checkedReader = reader.inRange := by
  simp only [checkedReader, reader, checkedU32_eq, checkedName_eq, inRange_bind, inRange_pure]

end WasmContract
