import WasmContract.Section.Basic
import WasmContract.Writer

/-!
# Writing sections

The standard encoding of sections and of the entries they list. Every integer is written in its
shortest form; a constant initialiser is written as it was found; of a name section, a subsection is
written only if it says something.
-/

namespace WasmContract

/-- The byte of a value type: its signed code in one group. -/
def ValueType.encode (t : ValueType) : List UInt8 := [Leb128.group (.ofInt t.code)]

/-- The bytes of a function type. -/
def FuncType.encode (t : FuncType) : List UInt8 :=
  t.form.encode ++ Writer.vec ValueType.encode t.params ++ Writer.vec ValueType.encode t.results

/-- The bytes of limits. -/
def Limits.encode (l : Limits) : List UInt8 :=
  Leb128.encode l.flags ++ Leb128.encode l.initial ++ l.maximum.elim [] Leb128.encode

/-- The bytes of a table type. -/
def TableType.encode (t : TableType) : List UInt8 := t.element.encode ++ t.limits.encode

/-- The bytes of a memory type. -/
def MemoryType.encode (t : MemoryType) : List UInt8 := t.limits.encode

/-- The bytes of the type of a global variable. -/
def GlobalType.encode (t : GlobalType) : List UInt8 :=
  t.content.encode ++ [if t.mutable then 1 else 0]

/-- The bytes of a global variable. -/
def GlobalVariable.encode (g : GlobalVariable) : List UInt8 := g.type.encode ++ g.init.raw

/-- The bytes that describe an imported entity, after those of its kind. -/
def ImportDesc.encode : ImportDesc → List UInt8
  | func typeIndex => Leb128.encode typeIndex
  | table type => type.encode
  | memory type => type.encode
  | global type => type.encode

/-- The bytes of an import. -/
def Import.encode (i : Import) : List UInt8 :=
  Writer.name i.moduleName ++ Writer.name i.fieldName ++ i.desc.kind.code :: i.desc.encode

/-- The bytes of an export. -/
def Export.encode (e : Export) : List UInt8 :=
  Writer.name e.name ++ e.kind.code :: Leb128.encode e.index

/-- The bytes of an element segment. -/
def ElementSegment.encode (e : ElementSegment) : List UInt8 :=
  Leb128.encode e.table ++ e.offset.raw ++ Writer.vec Leb128.encode e.functions

/-- The bytes of a group of local variables. -/
def LocalGroup.encode (g : LocalGroup) : List UInt8 := Leb128.encode g.count ++ g.type.encode

/-- The bytes of a function body. -/
def FunctionBody.encode (b : FunctionBody) : List UInt8 :=
  Writer.sized (Writer.vec LocalGroup.encode b.locals ++ b.code)

/-- The bytes of a data segment. -/
def DataSegment.encode (d : DataSegment) : List UInt8 :=
  Leb128.encode d.memory ++ d.offset.raw ++ Writer.sized d.data

/-- The bytes of the name of a function. -/
def FunctionName.encode (f : FunctionName) : List UInt8 :=
  Leb128.encode f.index ++ Writer.name f.name

/-- The bytes of a name section, after the name of the section itself. -/
def NameSection.encode (n : NameSection) : List UInt8 :=
  (n.moduleName.elim [] fun name => Writer.frame 0 (Writer.name name)) ++
    if n.functionNames.isEmpty then []
    else Writer.frame 1 (Writer.vec FunctionName.encode n.functionNames)

/-- The bytes of the content of a custom section. -/
def CustomSection.encode (c : CustomSection) : List UInt8 :=
  Writer.name c.name ++
    match c with
    | .names content => content.encode
    | .raw _ content => content

namespace Section

/-- The payload of a section. -/
def encodePayload : Section → List UInt8
  | custom content => content.encode
  | types entries => Writer.vec FuncType.encode entries
  | imports entries => Writer.vec Import.encode entries
  | functions entries => Writer.vec Leb128.encode entries
  | tables entries => Writer.vec TableType.encode entries
  | memories entries => Writer.vec MemoryType.encode entries
  | globals entries => Writer.vec GlobalVariable.encode entries
  | exports entries => Writer.vec Export.encode entries
  | start function => Leb128.encode function
  | elements entries => Writer.vec ElementSegment.encode entries
  | bodies entries => Writer.vec FunctionBody.encode entries
  | data entries => Writer.vec DataSegment.encode entries

/-- The bytes of a section. -/
def encode (s : Section) : List UInt8 := Writer.frame s.kind.code s.encodePayload

end Section

example : (Section.types [{ params := [.i64] }]).encode =
    [0x01, 0x05, 0x01, 0x60, 0x01, 0x7e, 0x00] := by decide

example : (Section.custom (.names { moduleName := some "m" })).encode =
    [0x00, 0x09, 0x04, 0x6e, 0x61, 0x6d, 0x65, 0x00, 0x02, 0x01, 0x6d] := by decide

end WasmContract
