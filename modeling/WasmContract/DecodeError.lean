import WasmContract.SectionKind
import WasmContract.Text.Numeral

/-!
# Decoding errors

`DecodeError` lists the causes for which bytes cannot be decoded, and `ModuleError` says where in a
module such a cause arose: in the header, or in the section that starts at a given offset. Each has
its wording in one function `message`.
-/

namespace WasmContract

/-- An integer encoding that must have a limited number of bytes. -/
inductive NarrowInteger where
  /-- One byte, unsigned. -/
  | varuint7
  /-- One byte, signed. -/
  | varint7
  /-- At most five bytes, signed. -/
  | varint32
deriving DecidableEq, Repr, Inhabited

/-- The name of a narrow integer encoding. -/
def NarrowInteger.name : NarrowInteger → String
  | varuint7 => "varuint7"
  | varint7 => "varint7"
  | varint32 => "varint32"

/-- A quantity that an export section may not exceed when it is written. -/
inductive ExportQuantity where
  /-- The number of entries. -/
  | count
  /-- The number of bytes in the name of an entry. -/
  | nameLength
deriving DecidableEq, Repr, Inhabited

/-- The name of a bounded quantity. -/
def ExportQuantity.name : ExportQuantity → String
  | count => "count"
  | nameLength => "name length"

/-- The ways in which a single parsing step reports failure. -/
inductive ParseFailure where
  /-- The step needs more input than there is, and more might come. -/
  | incomplete
  /-- The input ended. -/
  | eof
  /-- The input ended although it was complete. -/
  | complete
  /-- The step failed for another reason, known by its name. -/
  | other (name : String)
deriving DecidableEq, Repr, Inhabited

/-- Why bytes cannot be decoded. -/
inductive DecodeError where
  /-- An integer takes a number of bytes that its encoding does not allow. -/
  | malformedEncoding (form : NarrowInteger) (length : Nat)
  /-- An integer is outside the range of its type. -/
  | overflow
  /-- The input ends within an item. -/
  | unexpectedEnd
  /-- The first four bytes are not those that open a module. -/
  | invalidMagic (found : List UInt8)
  /-- No section kind has this code. -/
  | invalidSectionId (id : UInt8)
  /-- No external kind has this code. -/
  | invalidExternalKind (code : UInt8)
  /-- The byte is no instruction that may stand here. -/
  | invalidOpcode (code : UInt8)
  /-- No value type has this code. -/
  | invalidValueType (code : Int)
  /-- A function type does not start with its type constructor. -/
  | invalidTypeForm (code : Int)
  /-- A function type has more than one result. -/
  | tooManyResults (count : Nat)
  /-- A section has bytes after its declared content. -/
  | trailingBytes (kind : SectionKind) (remaining : Nat)
  /-- An export section exceeds a limit. -/
  | exportBound (quantity : ExportQuantity) (found limit : Nat)
  /-- A parsing step failed for a reason known by its name. -/
  | parser (name : String)
deriving DecidableEq, Repr, Inhabited

namespace DecodeError

/-- The decoding error for a failed parsing step: every shortage of input is the same error. -/
def ofParseFailure : ParseFailure → DecodeError
  | .incomplete | .eof | .complete => unexpectedEnd
  | .other name => parser name

/-- The wording of a decoding error. -/
def message : DecodeError → String
  | malformedEncoding form length => s!"malformed encoding: {form.name} consumed {length} bytes"
  | overflow => "integer overflow"
  | unexpectedEnd => "unexpected end of input"
  | invalidMagic found => s!"invalid magic number ({Text.byteList found})"
  | invalidSectionId id => s!"invalid section id ({id.toNat})"
  | invalidExternalKind code => s!"invalid external kind ({code.toNat})"
  | invalidOpcode code => s!"invalid opcode ({Text.hex code.toNat 2})"
  | invalidValueType code => s!"invalid value type ({code})"
  | invalidTypeForm code => s!"invalid type constructor ({code})"
  | tooManyResults count => s!"function type declares {count} results"
  | trailingBytes kind remaining => s!"{remaining} bytes unread in {kind.name} section"
  | exportBound quantity found limit =>
    s!"export {quantity.name} of {found} exceeds the limit of {limit}"
  | parser name => s!"parser error: {name}"

end DecodeError

/-- Why a byte stream is not a module, with the place of the fault. -/
inductive ModuleError where
  /-- The header is at fault. -/
  | inHeader (cause : DecodeError)
  /-- The section that starts at `offset` with the byte `id` is at fault. -/
  | inSection (id : UInt8) (offset : Nat) (cause : DecodeError)
deriving DecidableEq, Repr, Inhabited

namespace ModuleError

/-- The cause of a module error, without its place. -/
def rootCause : ModuleError → DecodeError
  | inHeader cause => cause
  | inSection _ _ cause => cause

/-- The wording of a module error. -/
def message : ModuleError → String
  | inHeader cause => cause.message
  | inSection id offset cause =>
    s!"section {id.toNat} at offset {Text.hex offset}: {cause.message}"

/-- The messages of a module error from the outermost to the innermost: a fault in a section is
followed by its cause. -/
def messages (e : ModuleError) : List String :=
  match e with
  | inHeader _ => [e.message]
  | inSection _ _ cause => [e.message, cause.message]

end ModuleError

end WasmContract
