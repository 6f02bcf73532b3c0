import WasmContract.Contract.Basic
import WasmContract.Contract.Host

/-!
# Validity of contracts

`Contract.validate` checks the rules for contracts one after the other and stops at the first that
is broken: no start section, no custom section unless these are allowed, both required exports,
their signatures, and imports that all are host functions with the signature the host gives them.
-/

namespace WasmContract

/-- What is wrong with the signature of a required export. -/
inductive SignatureFault where
  /-- The export `main` is no function. -/
  | notFunction (kind : ExternalKind)
  /-- There is no function of this index, or it has no type. -/
  | missingFunction (index : UInt32)
  /-- The function has parameters or results. -/
  | functionType (found : FuncType)
  /-- The export is not the first memory. -/
  | notFirstMemory (kind : ExternalKind) (index : UInt32)
deriving DecidableEq, Repr, Inhabited

/-- The wording of a signature fault. -/
def SignatureFault.message : SignatureFault → String
  | notFunction kind => s!"expected a function, found a {kind.name}"
  | missingFunction index => s!"function {index.toNat} does not exist"
  | functionType found => s!"expected (func), found {found.text}"
  | notFirstMemory kind index => s!"expected memory 0, found {kind.name} {index.toNat}"

/-- Why a module is no valid contract. -/
inductive ValidationError where
  /-- There is a start section. -/
  | hasStart
  /-- There is a custom section where none is allowed. -/
  | hasCustom
  /-- Not exactly the required exports were kept. -/
  | exportCount (count : Nat)
  /-- A required export is missing. -/
  | exportMissing (required : RequiredExport)
  /-- A required export has another signature than it must have. -/
  | exportSignature (required : RequiredExport) (fault : SignatureFault)
  /-- An import is not a function. -/
  | importNotFunc (moduleName fieldName : String) (kind : ExternalKind)
  /-- An imported function has a type index without a type. -/
  | importTypeIndex (moduleName fieldName : String) (index : UInt32)
  /-- An imported function is no host function. -/
  | unknownImport (moduleName fieldName : String)
  /-- An imported function has another type than the host function. -/
  | importSignature (moduleName fieldName : String) (expected found : FuncType)
deriving DecidableEq, Repr, Inhabited

/-- The wording of a validation error. -/
def ValidationError.message : ValidationError → String
  | hasStart => "module has a start section"
  | hasCustom => "module has a custom section"
  | exportCount count => s!"module must export exactly main and memory, found {count} exports"
  | exportMissing required => s!"export {Text.quoted required.name} is missing"
  | exportSignature required fault => s!"export {Text.quoted required.name}: {fault.message}"
  | importNotFunc moduleName fieldName kind =>
    s!"import {moduleName}.{fieldName} is a {kind.name}, only functions may be imported"
  | importTypeIndex moduleName fieldName index =>
    s!"import {moduleName}.{fieldName} refers to type {index.toNat} which does not exist"
  | unknownImport moduleName fieldName =>
    s!"import {moduleName}.{fieldName} is not a known host function"
  | importSignature moduleName fieldName expected found =>
    s!"import {moduleName}.{fieldName} has type {found.text}, expected {expected.text}"

/-- The choices of whoever validates a contract. -/
structure Options where
  /-- Modules with custom sections are accepted; these sections are dropped all the same. -/
  allowCustom : Bool := false
deriving DecidableEq, Repr, Inhabited

namespace Contract

/-- The first kept export of the name of a required one. -/
def find? (c : Contract) (required : RequiredExport) : Option Export :=
  Exports.find? c.exports required.name

/-- Checks the number of kept exports: fewer than two means that a required one is missing. -/
def validateExports (c : Contract) : Except ValidationError Unit :=
  if c.exports.length = 2 then pure ()
  else if c.find? .main = none then throw (.exportMissing .main)
  else if c.find? .memory = none then throw (.exportMissing .memory)
  else throw (.exportCount c.exports.length)

/-- Checks that `main` is a function without parameters and results. -/
def validateMain (c : Contract) : Except ValidationError Unit :=
  match c.find? .main with
  | none => throw (.exportMissing .main)
  | some main =>
    if main.kind ≠ .func then throw (.exportSignature .main (.notFunction main.kind))
    else match c.funcType? main.index with
      | none => throw (.exportSignature .main (.missingFunction main.index))
      | some type =>
        if type.Matches [] [] then pure ()
        else throw (.exportSignature .main (.functionType type))

/-- Checks that `memory` is the first memory. -/
def validateMemory (c : Contract) : Except ValidationError Unit :=
  match c.find? .memory with
  | none => throw (.exportMissing .memory)
  | some memory =>
    if memory.kind = .memory ∧ memory.index = 0 then pure ()
    else throw (.exportSignature .memory (.notFirstMemory memory.kind memory.index))

/-- Checks that an import is a host function with the signature that the host gives it. -/
def validateImport (c : Contract) (i : Import) : Except ValidationError Unit :=
  match i.desc.funcType? with
  | none => throw (.importNotFunc i.moduleName i.fieldName i.desc.kind)
  | some typeIndex =>
    match c.types[typeIndex.toNat]? with
    | none => throw (.importTypeIndex i.moduleName i.fieldName typeIndex)
    | some found =>
      match Host.lookup? i.moduleName i.fieldName with
      | none => throw (.unknownImport i.moduleName i.fieldName)
      | some host =>
        if found.Matches host.params host.results then pure ()
        else throw (.importSignature i.moduleName i.fieldName host.type found)

/-- Checks all rules for contracts in their order. -/
def check (c : Contract) (options : Options) : Except ValidationError Unit := do
  if c.hasStart then throw .hasStart
  if c.hasCustom ∧ ¬options.allowCustom then throw .hasCustom
  c.validateExports
  c.validateMain
  c.validateMemory
  c.imports.forM c.validateImport

/-- Checks all rules for contracts, and makes a record of a valid one. -/
def validateLogged (c : Contract) (options : Options) : Logged ValidationError Unit := do
  .ofExcept (c.check options)
  .report (.valid c.imports.length c.functions.length)

/-- Decides whether a contract is valid. -/
def validate (c : Contract) (options : Options := {}) : Except ValidationError Unit :=
  (c.validateLogged options).outcome

end Contract

end WasmContract
