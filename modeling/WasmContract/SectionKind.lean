/-!
# Section kinds

The twelve kinds of section a module may hold, with the code that opens a section of each kind.
-/

namespace WasmContract

/-- The kind of a section. -/
inductive SectionKind where
  /-- Named bytes that the format gives no meaning to. -/
  | custom
  /-- Function types. -/
  | types
  /-- Entities the module takes from its host. -/
  | imports
  /-- The types of the functions the module defines. -/
  | functions
  /-- Tables. -/
  | tables
  /-- Linear memories. -/
  | memories
  /-- Global variables. -/
  | globals
  /-- Entities the module offers to its host. -/
  | exports
  /-- The function to call when the module is instantiated. -/
  | start
  /-- Initial contents of tables. -/
  | elements
  /-- Function bodies. -/
  | bodies
  /-- Initial contents of memories. -/
  | data
deriving DecidableEq, Repr, Inhabited

namespace SectionKind

/-- The code that stands for a section kind in the binary format. -/
def code : SectionKind → UInt8
  | custom => 0
  | types => 1
  | imports => 2
  | functions => 3
  | tables => 4
  | memories => 5
  | globals => 6
  | exports => 7
  | start => 8
  | elements => 9
  | bodies => 10
  | data => 11

/-- The section kind with a given code. -/
def ofCode? : Int → Option SectionKind
  | 0 => some custom
  | 1 => some types
  | 2 => some imports
  | 3 => some functions
  | 4 => some tables
  | 5 => some memories
  | 6 => some globals
  | 7 => some exports
  | 8 => some start
  | 9 => some elements
  | 10 => some bodies
  | 11 => some data
  | _ => none

/-- The name of a section kind in messages. -/
def name : SectionKind → String
  | custom => "Custom"
  | types => "Type"
  | imports => "Import"
  | functions => "Function"
  | tables => "Table"
  | memories => "Memory"
  | globals => "Global"
  | exports => "Export"
  | start => "Start"
  | elements => "Element"
  | bodies => "Code"
  | data => "Data"

/-- Codes identify section kinds. -/
theorem ofCode?_eq_some_iff {n : Int} {k : SectionKind} :
    ofCode? n = some k ↔ n = k.code.toNat := by
  constructor
  · intro h
    unfold ofCode? at h
    split at h <;> simp at h <;> subst h <;> rfl
  · rintro rfl
    cases k <;> rfl

end SectionKind

end WasmContract
