import WasmContract.Contract.Validity

/-!
# Canonical form

`canonicalize` reads a module, checks that it is a valid contract, and gives its canonical bytes.
-/

namespace WasmContract

/-- Why a byte stream has no canonical form. -/
inductive CanonicalError where
  /-- It cannot be read. -/
  | decode (cause : ModuleError)
  /-- It is no valid contract. -/
  | validation (cause : ValidationError)
deriving DecidableEq, Repr, Inhabited

/-- The wording of a canonicalisation error. -/
def CanonicalError.message : CanonicalError → String
  | decode cause => s!"failed to read module: {cause.message}"
  | validation cause => s!"module is not valid: {cause.message}"

/-- The canonical bytes of a valid contract, with records of the work. -/
def canonicalizeLogged (options : Options) (bytes : List UInt8) :
    Logged CanonicalError (List UInt8) := do
  let contract ← (Contract.readLogged bytes).mapError .decode
  (contract.validateLogged options).mapError .validation
  return contract.bytes

/-- The canonical bytes of a valid contract. -/
def canonicalize (options : Options) (bytes : List UInt8) : Except CanonicalError (List UInt8) :=
  (canonicalizeLogged options bytes).outcome

end WasmContract
