import WasmContract.External
import WasmContract.InitExpr
import WasmContract.SectionKind

/-!
# Sections

The content of a section, by kind: a list of entries for most kinds, a single function index for a
start section, and names or uninterpreted bytes for a custom section.
-/

namespace WasmContract

/-- A global variable that a module defines. -/
structure GlobalVariable where
  /-- The type of the variable. -/
  type : GlobalType
  /-- Its value at instantiation. -/
  init : InitExpr
deriving DecidableEq, Repr, Inhabited

/-- Functions to be put into consecutive elements of a table. -/
structure ElementSegment where
  /-- The index of the table. -/
  table : UInt32
  /-- The first element to fill. -/
  offset : InitExpr
  /-- The indices of the functions. -/
  functions : List UInt32
deriving DecidableEq, Repr, Inhabited

/-- A run of local variables of one type. -/
structure LocalGroup where
  /-- The number of variables. -/
  count : UInt32
  /-- Their type. -/
  type : ValueType
deriving DecidableEq, Repr, Inhabited

/-- The body of a function that a module defines. -/
structure FunctionBody where
  /-- The local variables, without the parameters. -/
  locals : List LocalGroup
  /-- The instructions, kept as bytes. -/
  code : List UInt8
deriving DecidableEq, Repr, Inhabited

/-- Bytes to be put into consecutive cells of a memory. -/
structure DataSegment where
  /-- The index of the memory. -/
  memory : UInt32
  /-- The first cell to fill. -/
  offset : InitExpr
  /-- The bytes. -/
  data : List UInt8
deriving DecidableEq, Repr, Inhabited

/-- The name of a function, for people who debug. -/
structure FunctionName where
  /-- The index of the function. -/
  index : UInt32
  /-- Its name. -/
  name : String
deriving DecidableEq, Repr, Inhabited

/-- The names that a module gives to itself and its functions. -/
structure NameSection where
  /-- The name of the module, if it has one. -/
  moduleName : Option String := none
  /-- The names of functions. -/
  functionNames : List FunctionName := []
deriving DecidableEq, Repr, Inhabited

/-- A custom section. -/
inductive CustomSection where
  /-- A section named `name`, which holds names. -/
  | names (names : NameSection)
  /-- A section of any other name, whose content is kept as bytes. -/
  | raw (name : String) (content : List UInt8)
deriving DecidableEq, Repr, Inhabited

/-- The name of the custom sections that hold names. -/
def NameSection.sectionName : String := "name"

/-- The name of a custom section. -/
def CustomSection.name : CustomSection → String
  | names _ => NameSection.sectionName
  | raw name _ => name

/-- A decoded section. -/
inductive Section where
  /-- A custom section. -/
  | custom (content : CustomSection)
  /-- Function types. -/
  | types (entries : List FuncType)
  /-- Imported entities. -/
  | imports (entries : List Import)
  /-- The type indices of defined functions. -/
  | functions (entries : List UInt32)
  /-- Tables. -/
  | tables (entries : List TableType)
  /-- Memories. -/
  | memories (entries : List MemoryType)
  /-- Global variables. -/
  | globals (entries : List GlobalVariable)
  /-- Exported entities. -/
  | exports (entries : List Export)
  /-- The index of the start function. -/
  | start (function : UInt32)
  /-- Initial contents of tables. -/
  | elements (entries : List ElementSegment)
  /-- Bodies of defined functions. -/
  | bodies (entries : List FunctionBody)
  /-- Initial contents of memories. -/
  | data (entries : List DataSegment)
deriving DecidableEq, Repr, Inhabited

namespace Section

/-- The kind of a section. -/
def kind : Section → SectionKind
  | custom _ => .custom
  | types _ => .types
  | imports _ => .imports
  | functions _ => .functions
  | tables _ => .tables
  | memories _ => .memories
  | globals _ => .globals
  | exports _ => .exports
  | start _ => .start
  | elements _ => .elements
  | bodies _ => .bodies
  | data _ => .data

/-- The number of entries of a section; a custom or start section counts as one. -/
def size : Section → Nat
  | custom _ | start _ => 1
  | types entries => entries.length
  | imports entries => entries.length
  | functions entries => entries.length
  | tables entries => entries.length
  | memories entries => entries.length
  | globals entries => entries.length
  | exports entries => entries.length
  | elements entries => entries.length
  | bodies entries => entries.length
  | data entries => entries.length

/-- A section without entries. -/
def IsEmpty (s : Section) : Prop := s.size = 0

instance (s : Section) : Decidable s.IsEmpty := inferInstanceAs (Decidable (_ = _))

/-! ### The entries of one kind

Each is the list of entries, or `none` for a section of another kind. -/

/-- The function types that a section lists. -/
def types? : Section → Option (List FuncType)
  | types entries => some entries
  | _ => none

/-- The imports that a section lists. -/
def imports? : Section → Option (List Import)
  | imports entries => some entries
  | _ => none

/-- The type indices that a section lists. -/
def functions? : Section → Option (List UInt32)
  | functions entries => some entries
  | _ => none

/-- The exports that a section lists. -/
def exports? : Section → Option (List Export)
  | exports entries => some entries
  | _ => none

/-- The start function that a section names. -/
def start? : Section → Option UInt32
  | start function => some function
  | _ => none

/-- The names that a section holds. -/
def names? : Section → Option NameSection
  | custom (.names names) => some names
  | _ => none

end Section

end WasmContract
