import WasmContract.Leb128.Value
import WasmContract.Module.Encode

/-!
# Well-formed modules

The types of modules and sections admit values that no bytes stand for, such as limits whose flags
deny the maximum they have. `Module.WellFormed` excludes these, and `Module.Fits` excludes modules
too large for the sizes in their encoding. Both are conditions on single entries.
-/

namespace WasmContract

/-- A function type opens with its constructor and has at most one result. -/
def FuncType.WellFormed (t : FuncType) : Prop := t.form = .func ∧ t.results.length ≤ 1

/-- Limits have a maximum exactly when their flags announce one. -/
def Limits.WellFormed (l : Limits) : Prop := l.maximum.isSome ↔ Limits.HasMaximum l.flags

/-- The bytes of a constant initialiser are its instruction, an encoding of its operand in the
range of that instruction, and the end of the expression. -/
def InitExpr.WellFormed (e : InitExpr) : Prop :=
  ∃ operand : List UInt8,
    e.raw = e.opcode.code :: operand ++ [Opcode.finish.code] ∧
    Leb128.Terminated operand ∧ Leb128.intValue operand = e.value.toInt ∧
    match e.opcode with
    | .finish => False
    | .i32Const => operand.length ≤ 5 ∧ -2 ^ 31 ≤ e.value.toInt ∧ e.value.toInt < 2 ^ 31
    | .i64Const => operand.length ≤ 10

/-- The limits in the description of an imported entity are well formed. -/
def ImportDesc.WellFormed : ImportDesc → Prop
  | func _ | global _ => True
  | table type => type.limits.WellFormed
  | memory type => type.limits.WellFormed

/-- A custom section keeps its content as bytes only if it has not the name of the sections that
hold names. -/
def CustomSection.WellFormed : CustomSection → Prop
  | names _ => True
  | raw name _ => name ≠ NameSection.sectionName

/-- All entries of a section are well formed. -/
def Section.WellFormed : Section → Prop
  | custom content => content.WellFormed
  | types entries => ∀ t ∈ entries, t.WellFormed
  | imports entries => ∀ i ∈ entries, i.desc.WellFormed
  | tables entries => ∀ t ∈ entries, t.limits.WellFormed
  | memories entries => ∀ t ∈ entries, t.limits.WellFormed
  | globals entries => ∀ g ∈ entries, g.init.WellFormed
  | elements entries => ∀ e ∈ entries, e.offset.WellFormed
  | data entries => ∀ d ∈ entries, d.offset.WellFormed
  | functions _ | exports _ | start _ | bodies _ => True

/-- The size of the payload of a section can be announced in 32 bits, and with it every number of
entries and every size within the payload. -/
def Section.Fits (s : Section) : Prop := s.encodePayload.length < 2 ^ 32

/-- All sections of a module are well formed. -/
def Module.WellFormed (m : Module) : Prop := ∀ s ∈ m.sections, s.WellFormed

/-- All sections of a module fit their announced sizes. -/
def Module.Fits (m : Module) : Prop := ∀ s ∈ m.sections, s.Fits

end WasmContract
