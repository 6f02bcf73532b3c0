import WasmContract.DecodeError
import WasmContract.External
import WasmContract.Writer

/-!
# The exports of a contract

A contract exports its function `main` and its memory `memory`, and nothing else. `Exports.keep`
picks these two out of the entries of a module, and `Exports.encode` writes a section with the
entries that were kept.
-/

namespace WasmContract

/-- An export that every contract has. -/
inductive RequiredExport where
  /-- The function that runs the contract. -/
  | main
  /-- The memory that the contract shares with its host. -/
  | memory
deriving DecidableEq, Repr, Inhabited

namespace RequiredExport

/-- The name of a required export. -/
def name : RequiredExport → String
  | main => "main"
  | memory => "memory"

/-- The kind of a required export. -/
def kind : RequiredExport → ExternalKind
  | main => .func
  | memory => .memory

end RequiredExport

/-- An entry is a required export when it has the name and the kind of one. -/
def Export.Required (e : Export) : Prop :=
  ∃ r : RequiredExport, e.name = r.name ∧ e.kind = r.kind

/-- The required exports are the function `main` and the memory `memory`. -/
theorem Export.required_iff {e : Export} :
    e.Required ↔ (e.name = "main" ∧ e.kind = .func) ∨ (e.name = "memory" ∧ e.kind = .memory) := by
  constructor
  · rintro ⟨_ | _, h⟩
    · exact Or.inl h
    · exact Or.inr h
  · rintro (h | h)
    · exact ⟨.main, h⟩
    · exact ⟨.memory, h⟩

instance (e : Export) : Decidable e.Required := decidable_of_iff _ Export.required_iff.symm

namespace Exports

/-- The first entry of a given name. -/
def find? (entries : List Export) (name : String) : Option Export :=
  entries.find? fun e => e.name = name

/-- The entries to be kept from a section, given those kept from earlier ones: required exports
whose name has not been kept before. Two are enough, so nothing is looked at after the second. -/
def keep (kept : List Export) : List Export → List Export
  | [] => []
  | e :: later =>
    if 2 ≤ kept.length then []
    else if e.Required ∧ find? kept e.name = none then e :: keep (kept ++ [e]) later
    else keep kept later

/-- The greatest number of entries in a section that is written. -/
def maxCount : Nat := 64

/-- The greatest number of bytes in a name that is written. -/
def maxNameLength : Nat := 64

/-- Writes one entry: the length of its name in one byte, the name, its kind and its index. -/
def encodeEntry (e : Export) : Except DecodeError (List UInt8) := do
  let name := Text.Utf8.encode e.name
  if maxNameLength < name.length then
    throw (.exportBound .nameLength name.length maxNameLength)
  return name.length.toUInt8 :: name ++ e.kind.code :: Leb128.encode e.index

/-- Writes the payload of an export section: the number of entries in one byte, then the entries. -/
def encodePayload (entries : List Export) : Except DecodeError (List UInt8) := do
  if maxCount < entries.length then throw (.exportBound .count entries.length maxCount)
  let encoded ← entries.mapM encodeEntry
  return entries.length.toUInt8 :: encoded.flatten

/-- Writes an export section. -/
def encode (entries : List Export) : Except DecodeError (List UInt8) := do
  let payload ← encodePayload entries
  return Writer.frame SectionKind.exports.code payload

example : (encode [⟨"main", .func, 300⟩]).toOption =
    some [0x07, 0x09, 0x01, 0x04, 0x6d, 0x61, 0x69, 0x6e, 0x00, 0xac, 0x02] := by decide

end Exports

end WasmContract
