import WasmContract.FuncType

/-!
# External entities

What a module can take from its host and offer to it: functions, tables, memories and global
variables. `ImportDesc` describes an entity that is wanted, `Import` and `Export` attach the names
under which entities change hands.
-/

namespace WasmContract

/-- The kind of an external entity. -/
inductive ExternalKind where
  /-- A function. -/
  | func
  /-- A table. -/
  | table
  /-- A linear memory. -/
  | memory
  /-- A global variable. -/
  | global
deriving DecidableEq, Repr, Inhabited

namespace ExternalKind

/-- The code that stands for an external kind in the binary format. -/
def code : ExternalKind → UInt8
  | func => 0
  | table => 1
  | memory => 2
  | global => 3

/-- The external kind with a given code. -/
def ofCode? : Int → Option ExternalKind
  | 0 => some func
  | 1 => some table
  | 2 => some memory
  | 3 => some global
  | _ => none

/-- The name of an external kind in the text format. -/
def name : ExternalKind → String
  | func => "func"
  | table => "table"
  | memory => "memory"
  | global => "global"

/-- Codes identify external kinds. -/
theorem ofCode?_eq_some_iff {n : Int} {k : ExternalKind} :
    ofCode? n = some k ↔ n = k.code.toNat := by
  constructor
  · intro h
    unfold ofCode? at h
    split at h <;> simp at h <;> subst h <;> rfl
  · rintro rfl
    cases k <;> rfl

end ExternalKind

/-- The size limits of a table or memory. A maximum is present when the lowest bit of the flags is
set. -/
structure Limits where
  /-- The flags as found; all bits but the lowest are kept and ignored. -/
  flags : UInt32
  /-- The size at instantiation. -/
  initial : UInt32
  /-- The size that growth may not exceed. -/
  maximum : Option UInt32
deriving DecidableEq, Repr, Inhabited

/-- The flags announce a maximum. -/
def Limits.HasMaximum (flags : UInt32) : Prop := flags &&& 1 ≠ 0

instance (flags : UInt32) : Decidable (Limits.HasMaximum flags) :=
  inferInstanceAs (Decidable (_ ≠ _))

/-- The type of a table. -/
structure TableType where
  /-- The type of the elements. -/
  element : ValueType
  /-- The bounds on the number of elements. -/
  limits : Limits
deriving DecidableEq, Repr, Inhabited

/-- The type of a linear memory. -/
structure MemoryType where
  /-- The bounds on the number of pages. -/
  limits : Limits
deriving DecidableEq, Repr, Inhabited

/-- The type of a global variable. -/
structure GlobalType where
  /-- The type of the content. -/
  content : ValueType
  /-- The variable may be assigned to. -/
  mutable : Bool
deriving DecidableEq, Repr, Inhabited

/-- The description of an entity that a module imports. -/
inductive ImportDesc where
  /-- A function, by the index of its type. -/
  | func (typeIndex : UInt32)
  /-- A table. -/
  | table (type : TableType)
  /-- A linear memory. -/
  | memory (type : MemoryType)
  /-- A global variable. -/
  | global (type : GlobalType)
deriving DecidableEq, Repr, Inhabited

/-- The kind of the entity described. -/
def ImportDesc.kind : ImportDesc → ExternalKind
  | func _ => .func
  | table _ => .table
  | memory _ => .memory
  | global _ => .global

/-- The index of the type of an imported function. -/
def ImportDesc.funcType? : ImportDesc → Option UInt32
  | func typeIndex => some typeIndex
  | _ => none

/-- An entity that a module takes from its host. -/
structure Import where
  /-- The name of the host module that provides the entity. -/
  moduleName : String
  /-- The name of the entity within that module. -/
  fieldName : String
  /-- What is wanted. -/
  desc : ImportDesc
deriving DecidableEq, Repr, Inhabited

/-- An entity that a module offers to its host. -/
structure Export where
  /-- The name under which the entity is offered. -/
  name : String
  /-- The kind of the entity. -/
  kind : ExternalKind
  /-- The index of the entity among those of its kind. -/
  index : UInt32
deriving DecidableEq, Repr, Inhabited

end WasmContract
