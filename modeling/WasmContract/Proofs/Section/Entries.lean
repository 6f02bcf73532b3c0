import WasmContract.Section.Entries
import WasmContract.Proofs.Framing
import WasmContract.Proofs.Leb128.Signed

/-!
# The readers of section entries are lawful

Every reader of an entry is put together from lawful parts, in the order of the fields.
-/

namespace WasmContract

open Reader

namespace Reader

variable {α : Type} {item : Reader α}

theorem lawful_vec (h : Lawful item) : Lawful (vec item) :=
  Leb128.lawful_u32.bind fun _ => .many h _

theorem lawful_name : Lawful name := lawful_sized.map _

end Reader

theorem Leb128.lawful_u1 : Lawful Leb128.u1 := by
  refine Leb128.lawful_u7.bind fun value => ?_
  split
  · exact .pure _
  · exact .pure _
  · exact .throw trivial

theorem ValueType.lawful_reader : Lawful ValueType.reader := by
  refine Leb128.lawful_i7.bind fun code => ?_
  split
  · exact .pure _
  · exact .throw trivial

theorem FuncType.lawful_reader : Lawful FuncType.reader :=
  Leb128.lawful_i7.bind fun _ => .check trivial <|
    (lawful_vec ValueType.lawful_reader).bind fun _ =>
    (lawful_vec ValueType.lawful_reader).bind fun _ => .check trivial (.pure _)

theorem ExternalKind.lawful_reader : Lawful ExternalKind.reader := by
  refine Lawful.byte.bind fun code => ?_
  split
  · exact .pure _
  · exact .throw trivial

theorem Limits.lawful_reader : Lawful Limits.reader := by
  refine Leb128.lawful_u32.bind fun flags => Leb128.lawful_u32.bind fun initial => ?_
  split
  · exact Leb128.lawful_u32.bind fun _ => .pure _
  · exact .pure _

theorem TableType.lawful_reader : Lawful TableType.reader :=
  ValueType.lawful_reader.bind fun _ => Limits.lawful_reader.bind fun _ => .pure _

theorem MemoryType.lawful_reader : Lawful MemoryType.reader :=
  Limits.lawful_reader.bind fun _ => .pure _

theorem GlobalType.lawful_reader : Lawful GlobalType.reader :=
  ValueType.lawful_reader.bind fun _ => Leb128.lawful_u1.bind fun _ => .pure _

theorem InitExpr.lawful_constant : Lawful InitExpr.constant := by
  refine Lawful.byte.bind fun code => ?_
  split
  · exact Leb128.lawful_i32.bind fun _ => .pure _
  · exact Leb128.lawful_i64.bind fun _ => .pure _
  · exact .throw trivial

/-- Reads a constant instruction and the end of the expression behind it. -/
def InitExpr.expression : Reader (Opcode × Int64) := do
  let instruction ← InitExpr.constant
  let code ← byte
  if code ≠ Opcode.finish.code then throw (.invalidOpcode code)
  return instruction

theorem InitExpr.lawful_expression : Lawful InitExpr.expression :=
  InitExpr.lawful_constant.bind fun _ => Lawful.byte.bind fun _ => .check trivial (.pure _)

theorem InitExpr.lawful_reader : Lawful InitExpr.reader :=
  InitExpr.lawful_expression.captured.bind fun _ => .pure _

theorem GlobalVariable.lawful_reader : Lawful GlobalVariable.reader :=
  GlobalType.lawful_reader.bind fun _ => InitExpr.lawful_reader.bind fun _ => .pure _

theorem ImportDesc.lawful_reader : ∀ kind, Lawful (ImportDesc.reader kind)
  | .func => Leb128.lawful_u32.map _
  | .table => TableType.lawful_reader.map _
  | .memory => MemoryType.lawful_reader.map _
  | .global => GlobalType.lawful_reader.map _

theorem Import.lawful_reader : Lawful Import.reader :=
  lawful_name.bind fun _ => lawful_name.bind fun _ => ExternalKind.lawful_reader.bind fun kind =>
    (ImportDesc.lawful_reader kind).bind fun _ => .pure _

theorem Export.lawful_reader : Lawful Export.reader :=
  lawful_name.bind fun _ => ExternalKind.lawful_reader.bind fun _ =>
    Leb128.lawful_u32.bind fun _ => .pure _

theorem ElementSegment.lawful_reader : Lawful ElementSegment.reader :=
  Leb128.lawful_u32.bind fun _ => InitExpr.lawful_reader.bind fun _ =>
    (lawful_vec Leb128.lawful_u32).bind fun _ => .pure _

theorem LocalGroup.lawful_reader : Lawful LocalGroup.reader :=
  Leb128.lawful_u32.bind fun _ => ValueType.lawful_reader.bind fun _ => .pure _

theorem FunctionBody.lawful_reader : Lawful FunctionBody.reader :=
  lawful_sized.bind fun body => (Lawful.within (lawful_vec LocalGroup.lawful_reader) body).bind
    fun _ => .pure _

theorem DataSegment.lawful_reader : Lawful DataSegment.reader :=
  Leb128.lawful_u32.bind fun _ => InitExpr.lawful_reader.bind fun _ =>
    lawful_sized.bind fun _ => .pure _

theorem FunctionName.lawful_reader : Lawful FunctionName.reader :=
  Leb128.lawful_u32.bind fun _ => lawful_name.bind fun _ => .pure _

end WasmContract
