import WasmContract.Frame
import WasmContract.Log
import WasmContract.Module.Header

/-!
# Traversing the sections of a module

A module is read in one pass: its header, then its sections in order, each given to a step function
with its offset and the state reached so far. Every error on the way is reported with its place. A
stream that ends on a section boundary is complete; what follows the last complete section, if
anything, is the fault of the section that starts there.
-/

namespace WasmContract

variable {σ : Type}

/-- Visits frames in order, the first of which starts at `offset`, and gives the offset of their end
with the state reached. -/
def visitFrames (step : Nat → σ → Frame → Logged DecodeError σ) :
    (offset : Nat) → σ → List Frame → Logged ModuleError (Nat × σ)
  | offset, state, [] => return (offset, state)
  | offset, state, frame :: later => do
    let state ← (step offset state frame).mapError (.inSection frame.id offset)
    visitFrames step (offset + frame.bytes.length) state later

/-- Visits the sections of a byte stream without header, the first of which starts at `offset`. -/
def visitSections (step : Nat → σ → Frame → Logged DecodeError σ) (offset : Nat) (state : σ)
    (bytes : List UInt8) : Logged ModuleError σ := do
  let framing := Framing.ofBytes bytes
  let (stop, state) ← visitFrames step offset state framing.frames
  match framing.failure with
  | some (id, cause) => .fail (.inSection id stop cause)
  | none => return state

/-- Reads the header of a module and visits its sections, from the state that `start` gives for the
header. -/
def traverse (start : Header → σ) (step : Nat → σ → Frame → Logged DecodeError σ)
    (bytes : List UInt8) : Logged ModuleError σ := do
  let (header, body) ← (Logged.ofExcept (Header.reader bytes)).mapError .inHeader
  visitSections step Header.size (start header) body

end WasmContract
