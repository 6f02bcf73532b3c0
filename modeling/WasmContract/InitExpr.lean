/-!
# Constant initialisers

The expressions that give a global variable its value or a segment its offset: one constant
instruction followed by `end`.
-/

namespace WasmContract

/-- An instruction that may stand in a constant initialiser. -/
inductive Opcode where
  /-- The end of the expression. -/
  | finish
  /-- A 32-bit integer constant. -/
  | i32Const
  /-- A 64-bit integer constant. -/
  | i64Const
deriving DecidableEq, Repr, Inhabited

namespace Opcode

/-- The byte that stands for an instruction. -/
def code : Opcode → UInt8
  | finish => 0x0b
  | i32Const => 0x41
  | i64Const => 0x42

/-- The instruction with a given code. -/
def ofCode? : Int → Option Opcode
  | 0x0b => some finish
  | 0x41 => some i32Const
  | 0x42 => some i64Const
  | _ => none

/-- Codes identify instructions. -/
theorem ofCode?_eq_some_iff {n : Int} {o : Opcode} : ofCode? n = some o ↔ n = o.code.toNat := by
  constructor
  · intro h
    unfold ofCode? at h
    split at h <;> simp at h <;> subst h <;> rfl
  · rintro rfl
    cases o <;> rfl

end Opcode

/-- A constant initialiser. -/
structure InitExpr where
  /-- The constant instruction. -/
  opcode : Opcode
  /-- Its operand; a 32-bit operand is widened with its sign. -/
  value : Int64
  /-- The bytes of the expression as found, its final `end` included. -/
  raw : List UInt8
deriving DecidableEq, Repr, Inhabited

end WasmContract
