import Mathlib.Algebra.BigOperators.Group.List.Basic
import WasmContract.Module.WellFormed
import WasmContract.Proofs.Exports.Encode
import WasmContract.Proofs.Text.Utf8

/-!
# Reading entries back

What is written of an entry is read back, whatever follows it, if the entry is well formed and the
numbers and sizes in it can be announced. `ReadsBack` says so of a reader and a writer; since every
item takes bytes, a bound on the bytes written is all that it needs to ask.
-/

namespace WasmContract

open Reader

variable {α : Type}

namespace Reader

/-- What is written of an item that has the property is read back, if there is not too much of it
for a size in 32 bits. -/
def ReadsBack (r : Reader α) (write : α → List UInt8) (P : α → Prop) : Prop :=
  ∀ ⦃a⦄, P a → (write a).length < 2 ^ 32 → r.Reads (write a) a

theorem length_le_length_flatMap {entries : List α} {a : α} (f : α → List UInt8)
    (ha : a ∈ entries) : (f a).length ≤ (entries.flatMap f).length :=
  (List.sublist_flatten_of_mem (List.mem_map_of_mem ha)).length_le

/-- Written entries are read back if no entry is read from nothing: their number is then bounded by
that of their bytes. -/
theorem ReadsBack.vec {item : Reader α} {write : α → List UInt8} {P : α → Prop}
    (h : item.ReadsBack write P) (hnil : ∃ e, item [] = .error e) :
    (Reader.vec item).ReadsBack (Writer.vec write) fun entries => ∀ a ∈ entries, P a := by
  intro entries hP hlength
  rw [Writer.vec, List.length_append] at hlength
  have hreads : ∀ a ∈ entries, item.Reads (write a) a := by
    intro a ha
    have hpart := length_le_length_flatMap write ha
    exact h (hP a ha) (by omega)
  -- every entry takes a byte, so there are no more entries than bytes
  have hcount : entries.length ≤ (entries.flatMap write).length := by
    rw [List.length_flatMap]
    refine Nat.le_trans (Nat.le_of_eq (List.length_map _).symm) (List.length_le_sum_of_one_le _ ?_)
    intro n hn
    obtain ⟨a, ha, rfl⟩ := List.mem_map.mp hn
    exact List.length_pos_iff.mpr ((hreads a ha).ne_nil hnil)
  exact reads_vec hreads (by omega)

theorem readsBack_u32 : Leb128.u32.ReadsBack Leb128.encode fun _ => True :=
  fun value _ _ => Leb128.reads_u32_encode value

theorem readsBack_sized : sized.ReadsBack Writer.sized fun _ => True := by
  intro bytes _ hlength
  rw [Writer.sized, List.length_append] at hlength
  exact reads_sized (by omega)

/-- A text is valid UTF-8, so reading its bytes as text gives it again. -/
theorem readsBack_name : name.ReadsBack Writer.name fun _ => True := by
  intro text _ hlength
  rw [Writer.name, Writer.sized, List.length_append] at hlength
  exact reads_name (Text.Utf8.decode_encode text) (by omega)

end Reader

/-! ### Types -/

/-- A value type is read back from its one byte. -/
theorem ValueType.reads_encode (t : ValueType) : ValueType.reader.Reads t.encode t := by
  intro rest
  cases t <;> rfl

theorem ValueType.readsBack : ValueType.reader.ReadsBack ValueType.encode fun _ => True :=
  fun t _ _ => t.reads_encode

theorem Leb128.reads_i7_func :
    Leb128.i7.Reads ValueType.func.encode (.ofInt ValueType.func.code) :=
  fun _ => rfl

theorem Leb128.reads_u1 (b : Bool) : Leb128.u1.Reads [if b then 1 else 0] b := by
  intro rest
  cases b <;> rfl

/-- A function type is read back if it has the usual constructor and at most one result. -/
theorem FuncType.readsBack : FuncType.reader.ReadsBack FuncType.encode FuncType.WellFormed := by
  rintro ⟨form, params, results⟩ ⟨rfl, hresults⟩ hlength
  simp only [FuncType.encode, List.append_assoc, List.length_append] at hlength ⊢
  have hparams := ValueType.readsBack.vec ⟨_, rfl⟩ (a := params) (by simp) (by omega)
  have hfound := ValueType.readsBack.vec ⟨_, rfl⟩ (a := results) (by simp) (by omega)
  rw [← List.append_nil (Writer.vec ValueType.encode results)]
  exact Leb128.reads_i7_func.bind <| .check (by decide) <| hparams.bind <| hfound.bind <|
    .check (Nat.not_lt.mpr hresults) (.pure _)

/-- Limits are read back if their flags say whether there is a maximum. -/
theorem Limits.readsBack : Limits.reader.ReadsBack Limits.encode Limits.WellFormed := by
  rintro ⟨flags, initial, maximum⟩ hmaximum -
  simp only [Limits.encode, List.append_assoc]
  refine (Leb128.reads_u32_encode flags).bind ((Leb128.reads_u32_encode initial).bind ?_)
  cases maximum with
  | none =>
    rw [if_neg (by simpa using hmaximum.mpr)]
    exact .pure _
  | some size =>
    rw [if_pos (hmaximum.mp rfl)]
    exact (Leb128.reads_u32_encode size).last _

theorem TableType.readsBack :
    TableType.reader.ReadsBack TableType.encode fun t => t.limits.WellFormed := by
  intro t hlimits hlength
  rw [TableType.encode, List.length_append] at hlength
  exact t.element.reads_encode.bind <| (Limits.readsBack hlimits (by omega)).last _

theorem MemoryType.readsBack :
    MemoryType.reader.ReadsBack MemoryType.encode fun t => t.limits.WellFormed :=
  fun _ hlimits hlength => (Limits.readsBack hlimits hlength).last _

theorem GlobalType.reads_encode (t : GlobalType) : GlobalType.reader.Reads t.encode t :=
  t.content.reads_encode.bind <| (Leb128.reads_u1 t.mutable).last _

/-! ### Constant initialisers -/

namespace InitExpr

/-- An operand of 32 bits is read as any run of at most five groups spells it. -/
theorem reads_i32 {operand : List UInt8} {value : Int64} (hrun : Leb128.Terminated operand)
    (hlength : operand.length ≤ 5) (hvalue : Leb128.intValue operand = value.toInt)
    (hrange : -2 ^ 31 ≤ value.toInt ∧ value.toInt < 2 ^ 31) :
    Leb128.i32.Reads operand value.toInt32 := by
  intro rest
  refine Leb128.i32_eq_ok_iff.mpr ⟨operand, rfl, hrun, hlength, ?_⟩
  rw [Leb128.toInt_toInt32_of_inRange hrange, hvalue]

/-- An operand of 64 bits is read as any run of at most ten groups spells it. -/
theorem reads_i64 {operand : List UInt8} {value : Int64} (hrun : Leb128.Terminated operand)
    (hlength : operand.length ≤ 10) (hvalue : Leb128.intValue operand = value.toInt) :
    Leb128.i64.Reads operand value :=
  fun _ => Leb128.i64_eq_ok_iff.mpr ⟨operand, rfl, hrun, hlength, hvalue.symm⟩

/-- **A well-formed initialiser is read back**, in whatever way its operand is spelled. -/
theorem reads_raw {e : InitExpr} (h : e.WellFormed) : InitExpr.reader.Reads e.raw e := by
  obtain ⟨opcode, value, raw⟩ := e
  obtain ⟨operand, hraw, hrun, hvalue, hopcode⟩ := h
  dsimp only at hraw hvalue hopcode
  subst hraw
  have hconstant : InitExpr.constant.Reads (opcode.code :: operand) (opcode, value) := by
    cases opcode with
    | finish => exact hopcode.elim
    | i32Const =>
      obtain ⟨hlength, hrange⟩ := hopcode
      -- the number is in range, so it survives the way through 32 bits
      have hwiden : value.toInt32.toInt64 = value := by
        rw [← Int64.toInt_inj, Int32.toInt_toInt64, Leb128.toInt_toInt32_of_inRange hrange]
      have hread := (reads_i32 hrun hlength hvalue hrange).last
        fun v => (Opcode.i32Const, v.toInt64)
      rw [hwiden] at hread
      exact (Reads.byte _).bind hread
    | i64Const =>
      exact (Reads.byte _).bind <| (reads_i64 hrun hopcode hvalue).last _
  have hexpression : InitExpr.expression.Reads (opcode.code :: operand ++ [Opcode.finish.code])
      (opcode, value) :=
    hconstant.bind <| (Reads.byte _).bind <| .check (by simp) (.pure _)
  exact hexpression.captured.last _

end InitExpr

/-! ### Entries -/

theorem GlobalVariable.readsBack :
    GlobalVariable.reader.ReadsBack GlobalVariable.encode fun g => g.init.WellFormed :=
  fun g hinit _ => g.type.reads_encode.bind <| (InitExpr.reads_raw hinit).last _

theorem ImportDesc.readsBack (kind : ExternalKind) : (ImportDesc.reader kind).ReadsBack
    ImportDesc.encode fun d => d.kind = kind ∧ d.WellFormed := by
  rintro d ⟨rfl, hd⟩ hlength
  cases d with
  | func typeIndex => exact (Leb128.reads_u32_encode typeIndex).map _
  | table type => exact (TableType.readsBack hd hlength).map _
  | memory type => exact (MemoryType.readsBack hd hlength).map _
  | global type => exact type.reads_encode.map _

theorem Import.readsBack :
    Import.reader.ReadsBack Import.encode fun i => i.desc.WellFormed := by
  intro i hdesc hlength
  simp only [Import.encode, List.append_assoc, List.length_append, List.length_cons] at hlength ⊢
  have hmodule := readsBack_name (a := i.moduleName) trivial (by omega)
  have hfield := readsBack_name (a := i.fieldName) trivial (by omega)
  have hread := ImportDesc.readsBack i.desc.kind (a := i.desc) ⟨rfl, hdesc⟩ (by omega)
  exact hmodule.bind <| hfield.bind <| (ExternalKind.reads_code i.desc.kind).bind <| hread.last _

theorem Export.readsBack : Export.reader.ReadsBack Export.encode fun _ => True := by
  intro e _ hlength
  simp only [Export.encode, Writer.name, Writer.sized, List.length_append] at hlength
  exact reads_encode (Text.Utf8.decode_encode e.name) (by omega)

theorem ElementSegment.readsBack :
    ElementSegment.reader.ReadsBack ElementSegment.encode fun e => e.offset.WellFormed := by
  intro e hoffset hlength
  simp only [ElementSegment.encode, List.append_assoc, List.length_append] at hlength ⊢
  have hfunctions := readsBack_u32.vec ⟨_, rfl⟩ (a := e.functions) (by simp) (by omega)
  exact (Leb128.reads_u32_encode e.table).bind <| (InitExpr.reads_raw hoffset).bind <|
    hfunctions.last _

theorem LocalGroup.readsBack : LocalGroup.reader.ReadsBack LocalGroup.encode fun _ => True :=
  fun g _ _ => (Leb128.reads_u32_encode g.count).bind <| g.type.reads_encode.last _

/-- A body is read back with its local variables and its code: the code is all that is left of the
body. -/
theorem FunctionBody.readsBack :
    FunctionBody.reader.ReadsBack FunctionBody.encode fun _ => True := by
  intro b _ hlength
  have hbody := readsBack_sized trivial hlength
  rw [FunctionBody.encode, Writer.sized, List.length_append, List.length_append] at hlength
  have hlocals := LocalGroup.readsBack.vec ⟨_, rfl⟩ (a := b.locals) (by simp) (by omega)
  -- the variables are read from the front of the body, and what is left of it is the code
  have hwithin : (Reader.within (Writer.vec LocalGroup.encode b.locals ++ b.code)
      (Reader.vec LocalGroup.reader)).Reads [] (b.locals, b.code) := by
    intro rest
    rw [Reader.within, hlocals b.code]
    rfl
  rw [← List.append_nil b.encode]
  exact hbody.bind (hwithin.last _)

theorem DataSegment.readsBack :
    DataSegment.reader.ReadsBack DataSegment.encode fun d => d.offset.WellFormed := by
  intro d hoffset hlength
  simp only [DataSegment.encode, List.append_assoc, List.length_append] at hlength ⊢
  have hdata := readsBack_sized (a := d.data) trivial (by omega)
  exact (Leb128.reads_u32_encode d.memory).bind <| (InitExpr.reads_raw hoffset).bind <|
    hdata.last _

theorem FunctionName.readsBack :
    FunctionName.reader.ReadsBack FunctionName.encode fun _ => True := by
  intro f _ hlength
  rw [FunctionName.encode, List.length_append] at hlength
  have hname := readsBack_name (a := f.name) trivial (by omega)
  exact (Leb128.reads_u32_encode f.index).bind <| hname.last _

end WasmContract
