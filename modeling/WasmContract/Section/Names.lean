import WasmContract.Frame
import WasmContract.Log
import WasmContract.Section.Entries

/-!
# Name sections

The payload of a name section is a stream of frames, called subsections. Subsections of type 0 and 1
hold the name of the module and the names of functions; a later one replaces what an earlier one
said. Subsections of other types are passed over whole, and so are bytes left over in the first two.
-/

namespace WasmContract.NameSection

/-- Reports the bytes that a subsection has left over, if there are any. -/
def reportUnread (subsection : Frame) (unread : List UInt8) : Logged DecodeError Unit :=
  if unread.isEmpty then pure ()
  else .report (.subsectionSkipped subsection.id unread.length subsection.payload.length)

/-- Takes one subsection into account. -/
def absorb (names : NameSection) (subsection : Frame) : Logged DecodeError NameSection :=
  match subsection.id with
  | 0 => do
    let (moduleName, unread) ← .ofExcept (Reader.name subsection.payload)
    reportUnread subsection unread
    return { names with moduleName := some moduleName }
  | 1 => do
    let (functionNames, unread) ← .ofExcept (Reader.vec FunctionName.reader subsection.payload)
    reportUnread subsection unread
    return { names with functionNames }
  | _ => return names

/-- Reads the payload of a name section, after the name of the section itself. -/
def ofPayload (payload : List UInt8) : Logged DecodeError NameSection := do
  let subsections := Framing.ofBytes payload
  let names ← subsections.frames.foldlM absorb {}
  match subsections.failure with
  | some (_, cause) => .fail cause
  | none => return names

end WasmContract.NameSection
