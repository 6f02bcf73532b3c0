import WasmContract.Proofs.Framing

/-!
# The layout of frames

Where the parts of a frame stand among its bytes: an identifier of one byte, an encoding of the size
of the payload, which may be padded, and the payload (`Frame.Layout`). These are exactly the frames
that are read (`Frame.intact_iff`).

A stream consists of frames that are laid out so, one behind the other, and of a rest from which no
further frame can be read (`Framing.exists_rest`).
-/

namespace WasmContract

open Reader

variable {frame : Frame} {size bytes : List UInt8}

/-- The bytes of a frame are its identifier, the size of its payload, and the payload. -/
structure Frame.Layout (frame : Frame) (size : List UInt8) : Prop where
  /-- The identifier is a byte without its top bit. -/
  id_lt : frame.id.toNat < 128
  /-- The size is a run of groups. -/
  terminated : Leb128.Terminated size
  /-- It takes at most five bytes. -/
  length_le : size.length ≤ 5
  /-- It is the number of bytes in the payload. -/
  value : Leb128.natValue size = frame.payload.length
  /-- The size can be announced. -/
  payload_lt : frame.payload.length < 2 ^ 32
  /-- The parts make up the frame, in this order. -/
  bytes : frame.bytes = frame.id :: (size ++ frame.payload)

/-- An unsigned integer of seven bits is a byte without its top bit. -/
theorem Leb128.lt_of_u7 {b : UInt8} (h : u7.Reads bytes b) : b.toNat < 128 := by
  have hread := h []
  rw [h.eq_of_u7] at hread
  obtain ⟨⟨v, n⟩, rest, hunsigned, -⟩ := bind_eq_ok_iff.mp hread
  obtain ⟨run, happend, hrun, -⟩ := unsigned_eq_ok_iff.mp hunsigned
  -- a run that stands in a single byte is this byte, and no other group follows it
  cases hrun with
  | last hlast =>
    obtain ⟨rfl, -⟩ := List.cons.inj happend
    exact Nat.lt_of_not_le (mt continues_iff.mpr hlast)
  | next _ hlater =>
    obtain ⟨-, hnil⟩ := List.cons.inj happend
    obtain ⟨rfl, -⟩ := List.append_eq_nil_iff.mp hnil.symm
    cases hlater

/-- **The frames that are read** are those that are laid out. -/
theorem Frame.intact_iff : frame.Intact ↔ ∃ size, frame.Layout size := by
  constructor
  · intro h
    obtain ⟨first, later, hbytes, hid, hsized⟩ := h.exists_contents
    obtain ⟨n, size, payload, rfl, hsize, hpayload⟩ :=
      hsized.exists_of_bind Leb128.lawful_u32 fun _ => .bytes _
    obtain ⟨rfl, hlength⟩ := hpayload.eq_of_bytes
    obtain ⟨run, happend, hrun, hle, hvalue⟩ := Leb128.u32_eq_ok_iff.mp (hsize [])
    obtain rfl := List.append_cancel_right happend
    rw [hid.eq_of_u7] at hbytes
    exact ⟨size, {
      id_lt := Leb128.lt_of_u7 hid
      terminated := hrun
      length_le := hle
      value := by rw [hlength, hvalue]
      payload_lt := hlength ▸ n.toNat_lt
      bytes := hbytes }⟩
  · rintro ⟨size, h⟩
    have hvalue : frame.payload.length.toUInt32.toNat = Leb128.natValue size := by
      rw [Leb128.toNat_toUInt32 h.payload_lt, h.value]
    have hsize : Leb128.u32.Reads size frame.payload.length.toUInt32 :=
      fun _ => Leb128.u32_eq_ok_iff.mpr ⟨size, rfl, h.terminated, h.length_le, hvalue⟩
    have hsized : sized.Reads (size ++ frame.payload) frame.payload := by
      refine hsize.bind ?_
      rw [hvalue, h.value]
      exact .bytes frame.payload
    have hintact := intact_of_reads (Leb128.reads_u7 h.id_lt) hsized
    rwa [List.singleton_append, ← h.bytes] at hintact

/-- Behind the frames of a stream there is nothing, or something that no frame can be read from. -/
theorem Framing.exists_rest (bytes : List UInt8) :
    ∃ rest, bytes = (ofBytes bytes).frames.flatMap Frame.bytes ++ rest ∧
      (rest = [] ↔ (ofBytes bytes).failure = none) ∧
      ∀ cause, (rest ≠ [] ∧ Frame.reader rest = .error cause) ↔
        ∃ b, (ofBytes bytes).failure = some (b, cause) := by
  induction bytes using Framing.induction with
  | nil => exact ⟨[], rfl, by simp, by simp⟩
  | error b rest cause h =>
    rw [ofBytes_of_error h]
    exact ⟨b :: rest, rfl, by simp, by simp [h]⟩
  | frame f rest hf ih =>
    obtain ⟨left, hleft, hend⟩ := ih
    rw [ofBytes_append hf]
    refine ⟨left, ?_, hend⟩
    rw [List.flatMap_cons, List.append_assoc, ← hleft]

end WasmContract
