import WasmContract.Reader.Counted

/-!
# Frames

A frame is a piece of a byte stream that says what it is and how long it is: an identifier of one
byte, the size of the payload, and the payload. A module is a header followed by one frame for each
section, and a name section consists of one frame for each subsection.

`Framing.ofBytes` cuts a stream into its frames without looking into any payload. Frames are cut
until the stream ends or no further frame can be read.
-/

namespace WasmContract

/-- A piece of a byte stream with an identifier and a payload. -/
structure Frame where
  /-- What the payload is. -/
  id : UInt8
  /-- The payload alone. -/
  payload : List UInt8
  /-- All bytes of the frame as found: identifier, size and payload. -/
  bytes : List UInt8
deriving DecidableEq, Repr, Inhabited

/-- Reads one frame. -/
def Frame.reader : Reader Frame := do
  let ((id, payload), bytes) ← Reader.captured do
    let id ← Leb128.u7
    let payload ← Reader.sized
    return (id, payload)
  return { id, payload, bytes }

/-- A byte stream cut into frames. -/
structure Framing where
  /-- The complete frames at the front of the stream. -/
  frames : List Frame
  /-- The first byte after them, and why no frame can be read there; nothing if the stream ends with
  the last frame. -/
  failure : Option (UInt8 × DecodeError)
deriving DecidableEq, Repr, Inhabited

namespace Framing

/-- Cuts a stream of which the first `skip` bytes belong to a frame that has been cut already. A
frame is read at each boundary, and the bytes it spans are then passed over one by one. -/
def cutFrom : (skip : Nat) → List UInt8 → Framing
  | _, [] => ⟨[], none⟩
  | skip + 1, _ :: rest => cutFrom skip rest
  | 0, b :: rest =>
    match Frame.reader (b :: rest) with
    | .error cause => ⟨[], some (b, cause)⟩
    | .ok (frame, _) =>
      let later := cutFrom (frame.bytes.length - 1) rest
      ⟨frame :: later.frames, later.failure⟩

/-- Cuts a byte stream into frames. -/
def ofBytes (bytes : List UInt8) : Framing := cutFrom 0 bytes

/-! ### Cutting one frame

Bytes that are passed over have no influence, so cutting a stream is reading a frame and cutting
what lies behind it. -/

theorem cutFrom_eq (skip : Nat) (bytes : List UInt8) :
    cutFrom skip bytes = ofBytes (bytes.drop skip) := by
  induction bytes generalizing skip with
  | nil => simp [ofBytes, cutFrom]
  | cons b rest ih =>
    cases skip with
    | zero => rfl
    | succ skip => rw [cutFrom, ih, List.drop_succ_cons]

@[simp] theorem ofBytes_nil : ofBytes [] = ⟨[], none⟩ := rfl

theorem ofBytes_of_error {b : UInt8} {rest : List UInt8} {cause : DecodeError}
    (h : Frame.reader (b :: rest) = .error cause) :
    ofBytes (b :: rest) = ⟨[], some (b, cause)⟩ := by
  simp [ofBytes, cutFrom, h]

/-- Where a frame can be read, it is cut off, and the cutting goes on behind it. -/
theorem ofBytes_of_ok {b : UInt8} {rest left : List UInt8} {frame : Frame}
    (h : Frame.reader (b :: rest) = .ok (frame, left)) :
    ofBytes (b :: rest) =
      let later := ofBytes (rest.drop (frame.bytes.length - 1))
      ⟨frame :: later.frames, later.failure⟩ := by
  rw [← cutFrom_eq]
  simp [ofBytes, cutFrom, h]

end Framing

end WasmContract
