import WasmContract.Frame
import WasmContract.Proofs.Reader.Parts
import WasmContract.Writer

/-!
# Frames and streams

A frame that was cut out of a stream can be put into another one: its bytes determine it, whatever
follows (`Frame.Intact`). So cutting and joining are inverse to each other. `Framing.ofBytes_join`
cuts a join of intact frames at its seams, and `Framing.ofBytes_eq_iff` says that the streams that
can be cut to their end are exactly these joins.

`Framing.induction` is the induction along the cuts of a stream that all results about whole
streams use.
-/

namespace WasmContract

open Reader

variable {frame : Frame} {frames : List Frame} {bytes rest : List UInt8}

/-! ### Single frames -/

theorem Reader.lawful_sized : Lawful sized :=
  Leb128.lawful_u32.bind fun _ => .bytes _

/-- A payload is read back from behind its size, if the size can be announced. -/
theorem Reader.reads_sized {payload : List UInt8} (h : payload.length < 2 ^ 32) :
    sized.Reads (Writer.sized payload) payload := by
  refine (Leb128.reads_u32_encode payload.length.toUInt32).bind ?_
  rw [Leb128.toNat_toUInt32 h]
  exact .bytes payload

/-- Bytes of the same number are read behind the same size. -/
theorem Reader.Reads.exists_opening {used payload : List UInt8} (h : sized.Reads used payload) :
    ∃ opening, used = opening ++ payload ∧
      ∀ other, other.length = payload.length → sized.Reads (opening ++ other) other := by
  obtain ⟨n, opening, later, rfl, hsize, hbytes⟩ :=
    h.exists_of_bind Leb128.lawful_u32 fun _ => .bytes _
  obtain ⟨rfl, hlength⟩ := hbytes.eq_of_bytes
  refine ⟨opening, rfl, fun other heq => hsize.bind ?_⟩
  rw [← hlength, ← heq]
  exact .bytes other

namespace Frame

/-- The identifier and the payload of a frame. -/
private def contents : Reader (UInt8 × List UInt8) := do
  let id ← Leb128.u7
  let payload ← sized
  return (id, payload)

private theorem lawful_contents : Lawful contents :=
  Leb128.lawful_u7.bind fun _ => lawful_sized.bind fun _ => .pure _

/-- A frame is read from its own bytes alone. -/
theorem lawful_reader : Lawful reader :=
  lawful_contents.captured.bind fun _ => .pure _

/-- The bytes of a frame determine the frame, whatever follows them. -/
def Intact (frame : Frame) : Prop := reader.Reads frame.bytes frame

/-- A frame that was read is intact, and stands at the front of what it was read from. -/
theorem intact_of_reader_eq_ok (h : reader bytes = .ok (frame, rest)) :
    frame.Intact ∧ bytes = frame.bytes ++ rest := by
  obtain ⟨⟨content, found⟩, middle, hcaptured, hpure⟩ := bind_eq_ok_iff.mp h
  obtain ⟨hread, rfl⟩ := lawful_contents.captured_eq_ok_iff.mp hcaptured
  obtain ⟨used, heq, hused⟩ := lawful_contents.ok hread
  cases hpure
  obtain rfl := List.append_cancel_right heq
  refine ⟨?_, rfl⟩
  have hframe : reader.Reads (found ++ []) ⟨content.1, content.2, found⟩ :=
    hused.captured.bind (.pure _)
  rwa [List.append_nil] at hframe

/-- A frame is intact if its identifier and its sized payload are read from its bytes. -/
theorem intact_of_reads {id : UInt8} {payload first later : List UInt8}
    (hid : Leb128.u7.Reads first id) (hsized : sized.Reads later payload) :
    Intact { id, payload, bytes := first ++ later } := by
  have hcontents : contents.Reads (first ++ (later ++ [])) (id, payload) :=
    hid.bind (hsized.bind (.pure _))
  have hframe : reader.Reads (first ++ (later ++ []) ++ [])
      { id, payload, bytes := first ++ (later ++ []) } :=
    hcontents.captured.bind (.pure _)
  rwa [List.append_nil, List.append_nil] at hframe

/-- A frame that is written is intact. -/
theorem intact_frame {id : UInt8} {payload : List UInt8} (hid : id.toNat < 128)
    (hpayload : payload.length < 2 ^ 32) :
    Intact { id, payload, bytes := Writer.frame id payload } :=
  intact_of_reads (Leb128.reads_u7 hid) (reads_sized hpayload)

/-- A frame takes bytes, at least for its identifier. -/
theorem Intact.bytes_ne_nil (h : frame.Intact) : frame.bytes ≠ [] := by
  intro hnil
  -- no frame is read where there are no bytes
  have hread := h []
  rw [hnil] at hread
  cases hread

/-- Frames of the same bytes are the same. -/
theorem Intact.eq_of_bytes_eq {other : Frame} (h : frame.Intact) (hother : other.Intact)
    (heq : frame.bytes = other.bytes) : frame = other :=
  (h.eq_of_isPrefix hother (heq ▸ List.prefix_rfl)).2

/-- The bytes of a frame are those of its identifier and those of its sized payload. -/
theorem Intact.exists_contents (h : frame.Intact) :
    ∃ first later, frame.bytes = first ++ later ∧ Leb128.u7.Reads first frame.id ∧
      sized.Reads later frame.payload := by
  obtain ⟨⟨⟨id, payload⟩, found⟩, first, later, hbytes, hcaptured, hlater⟩ :=
    h.exists_of_bind lawful_contents.captured fun _ => .pure _
  obtain ⟨rfl, rfl⟩ := hlater.eq_of_pure
  obtain ⟨hcontents, rfl⟩ := hcaptured.of_captured lawful_contents
  obtain ⟨id, first, later, rfl, hid, hlater⟩ :=
    hcontents.exists_of_bind Leb128.lawful_u7 fun _ => lawful_sized.bind fun _ => .pure _
  obtain ⟨payload, hpayload, hsized⟩ := hlater.exists_of_last lawful_sized
  cases hpayload
  exact ⟨first, later, rfl, hid, hsized⟩

/-- The bytes of a frame are its identifier and the bytes from which its payload was read. -/
theorem Intact.exists_sized (h : frame.Intact) :
    ∃ used, frame.bytes = frame.id :: used ∧ sized.Reads used frame.payload := by
  obtain ⟨first, later, hbytes, hid, hsized⟩ := h.exists_contents
  rw [hid.eq_of_u7] at hbytes
  exact ⟨later, hbytes, hsized⟩

theorem Intact.length_payload_le (h : frame.Intact) :
    frame.payload.length ≤ frame.bytes.length := by
  obtain ⟨first, later, hbytes, -, hsized⟩ := h.exists_contents
  obtain ⟨size, rfl, -⟩ := hsized.exists_opening
  rw [hbytes, List.length_append, List.length_append]
  omega

/-- The payload of a frame can be replaced by any other of its size. -/
theorem Intact.exists_opening (h : frame.Intact) :
    ∃ opening, frame.bytes = opening ++ frame.payload ∧
      ∀ payload, payload.length = frame.payload.length →
        Intact { frame with payload, bytes := opening ++ payload } := by
  obtain ⟨first, later, hbytes, hid, hsized⟩ := h.exists_contents
  obtain ⟨size, rfl, hset⟩ := hsized.exists_opening
  refine ⟨first ++ size, by rw [hbytes, List.append_assoc], fun payload hlength => ?_⟩
  rw [List.append_assoc]
  exact intact_of_reads hid (hset payload hlength)

end Frame

namespace Framing

/-! ### Cutting and joining -/

/-- The first frame of a stream is cut off, and the cutting goes on behind it. -/
theorem ofBytes_append (h : frame.Intact) (rest : List UInt8) :
    ofBytes (frame.bytes ++ rest) = ⟨frame :: (ofBytes rest).frames, (ofBytes rest).failure⟩ := by
  have hread := h rest
  obtain ⟨b, later, hbytes⟩ := List.exists_cons_of_ne_nil h.bytes_ne_nil
  rw [hbytes, List.cons_append] at hread ⊢
  rw [ofBytes_of_ok hread, hbytes]
  simp

/-- A join of intact frames is cut at its seams. -/
theorem ofBytes_join (h : ∀ f ∈ frames, f.Intact) (rest : List UInt8) :
    ofBytes (frames.flatMap Frame.bytes ++ rest) =
      ⟨frames ++ (ofBytes rest).frames, (ofBytes rest).failure⟩ := by
  induction frames with
  | nil => rfl
  | cons f later ih =>
    have hlater := ih fun g hg => h g (List.mem_cons_of_mem f hg)
    rw [List.flatMap_cons, List.append_assoc, ofBytes_append (h f List.mem_cons_self), hlater]
    rfl

/-- Induction along the cuts of a stream: it ends, or no frame can be read from it, or it goes on
behind a frame. -/
theorem induction {P : List UInt8 → Prop} (nil : P [])
    (error : ∀ b rest cause, Frame.reader (b :: rest) = .error cause → P (b :: rest))
    (frame : ∀ (f : Frame) rest, f.Intact → P rest → P (f.bytes ++ rest)) (bytes : List UInt8) :
    P bytes := by
  induction hlength : bytes.length using Nat.strongRecOn generalizing bytes with
  | ind n ih =>
    cases bytes with
    | nil => exact nil
    | cons b left =>
      cases hread : Frame.reader (b :: left) with
      | error cause => exact error b left cause hread
      | ok p =>
        obtain ⟨hintact, heq⟩ := Frame.intact_of_reader_eq_ok hread
        rw [heq]
        -- a frame has at least one byte, so less is left behind it
        refine frame p.1 p.2 hintact (ih p.2.length ?_ p.2 rfl)
        have hpos := List.length_pos_iff.mpr hintact.bytes_ne_nil
        have hsum := congrArg List.length heq
        rw [List.length_append] at hsum
        omega

/-- Every frame that is cut out of a stream is intact. -/
theorem intact_of_mem (bytes : List UInt8) : ∀ f ∈ (ofBytes bytes).frames, f.Intact := by
  induction bytes using induction with
  | nil => simp
  | error b rest cause h => simp [ofBytes_of_error h]
  | frame f rest hintact ih =>
    rw [ofBytes_append hintact]
    intro g hg
    rcases List.mem_cons.mp hg with rfl | hg
    · exact hintact
    · exact ih g hg

/-- **The streams that can be cut to their end** are the joins of intact frames. -/
theorem ofBytes_eq_iff : ofBytes bytes = ⟨frames, none⟩ ↔
    bytes = frames.flatMap Frame.bytes ∧ ∀ f ∈ frames, f.Intact := by
  constructor
  · intro h
    have hintact := intact_of_mem bytes
    rw [h] at hintact
    refine ⟨?_, hintact⟩
    induction bytes using induction generalizing frames with
    | nil =>
      rw [ofBytes_nil] at h
      cases h
      rfl
    | error b rest cause herror => simp [ofBytes_of_error herror] at h
    | frame f rest hf ih =>
      rw [ofBytes_append hf] at h
      obtain ⟨rfl, hfailure⟩ := Framing.mk.inj h
      have hlater : ofBytes rest = ⟨(ofBytes rest).frames, none⟩ := by rw [← hfailure]
      rw [List.flatMap_cons, ← ih hlater fun g hg => hintact g (List.mem_cons_of_mem f hg)]
  · rintro ⟨rfl, hintact⟩
    have h := ofBytes_join hintact []
    rwa [List.append_nil, ofBytes_nil, List.append_nil] at h

end Framing

end WasmContract
