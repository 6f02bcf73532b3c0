import WasmContract.ValueType

/-!
# Function types

A function type lists the types of a function's parameters and results behind the type constructor
that introduces it. `FuncType.text` writes it the way the text format does, and `FuncType.Matches`
compares the two lists alone.
-/

namespace WasmContract

/-- The type of a function. -/
structure FuncType where
  /-- The type constructor, `func` in every type that is read from bytes. -/
  form : ValueType := .func
  /-- The types of the parameters, in order. -/
  params : List ValueType := []
  /-- The types of the results, in order. -/
  results : List ValueType := []
deriving DecidableEq, Repr, Inhabited

namespace FuncType

/-- A function type has the signature `params → results` when it lists exactly these types; its
constructor plays no part. -/
abbrev Matches (t : FuncType) (params results : List ValueType) : Prop :=
  t.params = params ∧ t.results = results

/-- One parenthesised list of types, headed by what they are; nothing for an empty list. -/
def groupText (heading : String) (types : List ValueType) : String :=
  if types.isEmpty then ""
  else " (" ++ heading ++ types.foldr (fun t text => " " ++ t.name ++ text) ")"

/-- A function type in the text format, such as `(func (param i64 i32) (result i32))`. -/
def text (t : FuncType) : String :=
  "(" ++ t.form.name ++ groupText "param" t.params ++ groupText "result" t.results ++ ")"

example : text { params := [.i64, .i32], results := [.i32] } =
    "(func (param i64 i32) (result i32))" := by decide

example : text {} = "(func)" := by decide

end FuncType

end WasmContract
