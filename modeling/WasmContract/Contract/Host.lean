import WasmContract.FuncType

/-!
# Host functions

The functions that the host offers to a contract, in two modules: `debug` for tracing and `ethereum`
for access to the blockchain. A contract may import these functions and no others, each with exactly
the signature given here.
-/

namespace WasmContract

/-- A function of the host. -/
structure HostFunc where
  /-- The name of the function within its module. -/
  name : String
  /-- The types of the parameters. -/
  params : List ValueType
  /-- The types of the results. -/
  results : List ValueType
deriving DecidableEq, Repr, Inhabited

/-- The type of a host function. -/
def HostFunc.type (f : HostFunc) : FuncType := { params := f.params, results := f.results }

namespace Host

/-- The functions of the module `debug`. -/
def debug : List HostFunc :=
  [⟨"print32", [.i32], []⟩,
   ⟨"print64", [.i64], []⟩,
   ⟨"printMem", [.i32, .i32], []⟩,
   ⟨"printMemHex", [.i32, .i32], []⟩,
   ⟨"printStorage", [.i32], []⟩,
   ⟨"printStorageHex", [.i32], []⟩]

/-- The functions of the module `ethereum`. -/
def ethereum : List HostFunc :=
  [⟨"useGas", [.i64], []⟩,
   ⟨"getGasLeft", [], [.i64]⟩,
   ⟨"getAddress", [.i32], []⟩,
   ⟨"getExternalBalance", [.i32, .i32], []⟩,
   ⟨"getBlockHash", [.i64, .i32], [.i32]⟩,
   ⟨"getBlockCoinbase", [.i32], []⟩,
   ⟨"getBlockDifficulty", [.i32], []⟩,
   ⟨"getBlockGasLimit", [], [.i64]⟩,
   ⟨"getBlockNumber", [], [.i64]⟩,
   ⟨"getBlockTimestamp", [], [.i64]⟩,
   ⟨"getTxGasPrice", [.i32], []⟩,
   ⟨"getTxOrigin", [.i32], []⟩,
   ⟨"getCaller", [.i32], []⟩,
   ⟨"getCallValue", [.i32], []⟩,
   ⟨"getCallDataSize", [], [.i32]⟩,
   ⟨"callDataCopy", [.i32, .i32, .i32], []⟩,
   ⟨"getCodeSize", [], [.i32]⟩,
   ⟨"codeCopy", [.i32, .i32, .i32], []⟩,
   ⟨"getExternalCodeSize", [.i32], [.i32]⟩,
   ⟨"externalCodeCopy", [.i32, .i32, .i32, .i32], []⟩,
   ⟨"getReturnDataSize", [], [.i32]⟩,
   ⟨"returnDataCopy", [.i32, .i32, .i32], []⟩,
   ⟨"storageStore", [.i32, .i32], []⟩,
   ⟨"storageLoad", [.i32, .i32], []⟩,
   ⟨"call", [.i64, .i32, .i32, .i32, .i32], [.i32]⟩,
   ⟨"callCode", [.i64, .i32, .i32, .i32, .i32], [.i32]⟩,
   ⟨"callDelegate", [.i64, .i32, .i32, .i32], [.i32]⟩,
   ⟨"callStatic", [.i64, .i32, .i32, .i32], [.i32]⟩,
   ⟨"create", [.i32, .i32, .i32, .i32], [.i32]⟩,
   ⟨"log", [.i32, .i32, .i32, .i32, .i32, .i32, .i32], []⟩,
   ⟨"finish", [.i32, .i32], []⟩,
   ⟨"revert", [.i32, .i32], []⟩,
   ⟨"selfDestruct", [.i32], []⟩]

/-- The functions of a host module; none for a module that the host does not have. -/
def functions (moduleName : String) : List HostFunc :=
  if moduleName = "debug" then debug
  else if moduleName = "ethereum" then ethereum
  else []

/-- The host function of a given name in a given module. -/
def lookup? (moduleName fieldName : String) : Option HostFunc :=
  (functions moduleName).find? fun f => f.name = fieldName

end Host

end WasmContract
