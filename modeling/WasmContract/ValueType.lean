/-!
# Value types

The types a WebAssembly value, table element or type constructor may have, with the signed code
that stands for each in the binary format and the name it has in the text format.
-/

namespace WasmContract

/-- A value type, or one of the pseudo types that share its encoding. -/
inductive ValueType where
  /-- 32-bit integers. -/
  | i32
  /-- 64-bit integers. -/
  | i64
  /-- 32-bit floating-point numbers. -/
  | f32
  /-- 64-bit floating-point numbers. -/
  | f64
  /-- References to functions of any type, the elements of a table. -/
  | anyFunc
  /-- The constructor of function types. -/
  | func
  /-- The type of a block without a result. -/
  | block
deriving DecidableEq, Repr, Inhabited

namespace ValueType

/-- The signed code of a value type. -/
def code : ValueType → Int
  | i32 => -0x01
  | i64 => -0x02
  | f32 => -0x03
  | f64 => -0x04
  | anyFunc => -0x10
  | func => -0x20
  | block => -0x40

/-- The value type with a given code. -/
def ofCode? : Int → Option ValueType
  | -0x01 => some i32
  | -0x02 => some i64
  | -0x03 => some f32
  | -0x04 => some f64
  | -0x10 => some anyFunc
  | -0x20 => some func
  | -0x40 => some block
  | _ => none

/-- The name of a value type in the text format. -/
def name : ValueType → String
  | i32 => "i32"
  | i64 => "i64"
  | f32 => "f32"
  | f64 => "f64"
  | anyFunc => "anyfunc"
  | func => "func"
  | block => "block_type"

end ValueType

end WasmContract
