import WasmContract.Proofs.Module.Stream

/-!
# Sections behind a header

`decodeSections` is what `decodeStream` does behind the header: it takes one section after the other
from a stream, and what it makes of the stream depends on the offset of the first section only
through the places of errors (`decodeSections_add`).

A stream can be decoded in parts. When its front is decoded, the sections behind it are decoded as
if they came first, and join those of the front (`decodeStream_append`). When its front cannot be
decoded, and not for want of bytes, nothing that follows is ever looked at
(`decodeStream_append_of_error`).
-/

namespace WasmContract

open Reader

/-- Decodes the sections of a byte stream without header, the first of which starts at `offset`. -/
def decodeSections (decode : Frame → Except DecodeError Section) (offset : Nat)
    (bytes : List UInt8) : Except ModuleError (List FramedSection) :=
  let framing := Framing.ofBytes bytes
  (decodeFrames decode offset framing.frames).bind fun parts => framing.close offset parts

/-- The error of the same cause, at a place `distance` bytes further on. -/
def ModuleError.shift (distance : Nat) : ModuleError → ModuleError
  | inHeader cause => inHeader cause
  | inSection id offset cause => inSection id (distance + offset) cause

variable {decode : Frame → Except DecodeError Section} {offset : Nat} {frame : Frame}
  {front rest : List UInt8} {header : Header} {parts : List FramedSection} {cause : DecodeError}
  {e : ModuleError}

/-! ### One section after the other -/

theorem decodeSections_of_error {b : UInt8} (h : Frame.reader (b :: rest) = .error cause) :
    decodeSections decode offset (b :: rest) = .error (.inSection b offset cause) := by
  rw [decodeSections, Framing.ofBytes_of_error h]
  rfl

/-- **One step** decodes the first frame, and goes on with the bytes behind it. -/
theorem decodeSections_frame (h : frame.Intact) (rest : List UInt8) :
    decodeSections decode offset (frame.bytes ++ rest) =
      ((decode frame).mapError (.inSection frame.id offset)).bind fun content =>
        (decodeSections decode (offset + frame.bytes.length) rest).map (⟨frame, content⟩ :: ·) := by
  simp only [decodeSections, Framing.ofBytes_append h, decodeFrames]
  cases decode frame with
  | error cause => rfl
  | ok content =>
    simp only [Except.ok_mapError, Except.ok_bind]
    cases decodeFrames decode (offset + frame.bytes.length) (Framing.ofBytes rest).frames with
    | error e => rfl
    | ok later =>
      simp only [Except.ok_map, Except.ok_bind, Framing.close, List.flatMap_cons,
        List.length_append, Nat.add_assoc]
      cases (Framing.ofBytes rest).failure <;> rfl

/-- Sections fail at the place of one of them. -/
theorem exists_of_decodeSections_eq_error {bytes : List UInt8}
    (h : decodeSections decode offset bytes = .error e) :
    ∃ id place cause, e = .inSection id place cause := by
  rcases Except.bind_eq_error_iff.mp h with h | ⟨parts, -, hclose⟩
  · obtain ⟨_, frame, _, cause, -, -, -, rfl⟩ := exists_of_decodeFrames_eq_error h
    exact ⟨_, _, _, rfl⟩
  · obtain ⟨id, cause, -, rfl⟩ := Framing.close_eq_error_iff.mp hclose
    exact ⟨_, _, _, rfl⟩

/-! ### Offsets -/

/-- The offset of the first section has an influence on the places of errors alone. -/
theorem decodeSections_add (distance offset : Nat) (bytes : List UInt8) :
    decodeSections decode (distance + offset) bytes =
      (decodeSections decode offset bytes).mapError (.shift distance) := by
  induction bytes using Framing.induction generalizing offset with
  | nil => rfl
  | error b rest cause h =>
    rw [decodeSections_of_error h, decodeSections_of_error h]
    rfl
  | frame f rest hf ih =>
    rw [decodeSections_frame hf, decodeSections_frame hf, Nat.add_assoc, ih]
    cases decode f with
    | error cause => rfl
    | ok content =>
      simp only [Except.ok_mapError, Except.ok_bind]
      cases decodeSections decode (offset + f.bytes.length) rest <;> rfl

/-! ### Streams that go on -/

/-- **Sections may be decoded in parts.** Those of the back start where the front ends. The
induction is along the frames of the front. -/
theorem decodeSections_append (h : decodeSections decode offset front = .ok parts)
    (back : List UInt8) :
    decodeSections decode offset (front ++ back) =
      (decodeSections decode (offset + front.length) back).map (parts ++ ·) := by
  induction front using Framing.induction generalizing offset parts with
  | nil =>
    cases h
    rw [List.nil_append, List.length_nil, Nat.add_zero]
    cases decodeSections decode offset back <;> rfl
  | error b rest cause herror =>
    rw [decodeSections_of_error herror] at h
    cases h
  | frame f rest hf ih =>
    rw [decodeSections_frame hf] at h
    rw [List.append_assoc, decodeSections_frame hf]
    cases hdecode : decode f with
    | error cause =>
      rw [hdecode] at h
      cases h
    | ok content =>
      rw [hdecode, Except.ok_mapError, Except.ok_bind, Except.map_eq_ok_iff] at h
      obtain ⟨later, hlater, rfl⟩ := h
      rw [Except.ok_mapError, Except.ok_bind, ih hlater, List.length_append, Nat.add_assoc]
      cases decodeSections decode (offset + (f.bytes.length + rest.length)) back <;> rfl

/-- A failure that is no shortage of input is final. -/
theorem decodeSections_append_of_error (h : decodeSections decode offset front = .error e)
    (he : e.rootCause ≠ .unexpectedEnd) (back : List UInt8) :
    decodeSections decode offset (front ++ back) = .error e := by
  induction front using Framing.induction generalizing offset with
  | nil => cases h
  | error b rest cause herror =>
    rw [decodeSections_of_error herror] at h
    cases h
    exact decodeSections_of_error (Frame.lawful_reader.error herror he back)
  | frame f rest hf ih =>
    rw [decodeSections_frame hf] at h
    rw [List.append_assoc, decodeSections_frame hf]
    cases hdecode : decode f with
    | error cause =>
      -- the frame is complete, so even a shortage within its payload is final
      rw [hdecode] at h
      exact h
    | ok content =>
      rw [hdecode, Except.ok_mapError, Except.ok_bind, Except.map_eq_error_iff] at h
      rw [Except.ok_mapError, Except.ok_bind, ih h, Except.error_map]

/-! ### Whole streams -/

/-- A stream is a header, and sections behind it. -/
theorem decodeStream_of_reads (h : Header.reader.Reads front header) (body : List UInt8) :
    decodeStream decode (front ++ body) =
      (decodeSections decode Header.size body).map fun parts => (header, parts) := by
  simp only [decodeStream, h body, Except.ok_mapError, Except.ok_bind, decodeSections]
  cases decodeFrames decode Header.size (Framing.ofBytes body).frames with
  | error e => rfl
  | ok parts =>
    simp only [Except.ok_bind, Framing.close]
    cases (Framing.ofBytes body).failure <;> rfl

/-- The header of a stream that has one, with the bytes of its sections. -/
theorem Header.cases_reader (bytes : List UInt8) :
    (∃ cause, Header.reader bytes = .error cause) ∨
      ∃ header front body, bytes = front ++ body ∧ front.length = Header.size ∧
        Header.reader.Reads front header := by
  cases h : Header.reader bytes with
  | error cause => exact .inl ⟨cause, rfl⟩
  | ok p =>
    obtain ⟨hreads, -, hlength⟩ := Header.reads_take_of_reader_eq_ok h
    exact .inr ⟨p.1, bytes.take size, bytes.drop size, (List.take_append_drop ..).symm,
      List.length_take_of_le hlength, hreads⟩

/-- **A stream that goes on.** The sections behind a stream that is decoded are decoded as a stream
of their own, and join those before them. -/
theorem decodeStream_append (h : decodeStream decode front = .ok (header, parts))
    (back : List UInt8) :
    decodeStream decode (front ++ back) =
      (decodeSections decode front.length back).map fun later => (header, parts ++ later) := by
  rcases Header.cases_reader front with
    ⟨cause, hread⟩ | ⟨header', opening, body, rfl, hlength, hreads⟩
  · rw [decodeStream_of_error hread] at h
    cases h
  · rw [decodeStream_of_reads hreads, Except.map_eq_ok_iff] at h
    obtain ⟨parts, hparts, hpair⟩ := h
    cases hpair
    rw [List.append_assoc, decodeStream_of_reads hreads, decodeSections_append hparts,
      List.length_append, hlength]
    cases decodeSections decode (Header.size + body.length) back <;> rfl

/-- **A failure that is no shortage of input is final**, in the header and behind it. -/
theorem decodeStream_append_of_error (h : decodeStream decode front = .error e)
    (he : e.rootCause ≠ .unexpectedEnd) (back : List UInt8) :
    decodeStream decode (front ++ back) = .error e := by
  rcases Header.cases_reader front with ⟨cause, hread⟩ | ⟨header, opening, body, rfl, -, hreads⟩
  · rw [decodeStream_of_error hread] at h
    cases h
    exact decodeStream_of_error (Header.lawful_reader.error hread he back)
  · rw [decodeStream_of_reads hreads, Except.map_eq_error_iff] at h
    rw [List.append_assoc, decodeStream_of_reads hreads, decodeSections_append_of_error h he,
      Except.error_map]

end WasmContract
