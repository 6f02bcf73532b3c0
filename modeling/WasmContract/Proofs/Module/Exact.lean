import WasmContract.Proofs.Module.Decode

/-!
# Streams that are used up

A frame holds a section exactly when nothing of its payload is left unread
(`FramedSection.Exact`). The strict decoder of frames accepts just these, so the streams that it
accepts are those that consist of such frames (`decodeStream_decodeStrictly_eq_ok_iff`), and of
these the lenient decoder makes the same sections (`ExactStream.decode_eq_ok`).
-/

namespace WasmContract

/-! ### Single frames -/

namespace Frame

variable {frame : Frame} {s : Section}

/-- Lenient decoding passes over the bytes left unread. -/
theorem decodeLeniently_eq_ok_iff :
    frame.decodeLeniently = .ok s ↔ ∃ unread, frame.decode = .ok (s, unread) := by
  rw [decodeLeniently, Except.map_eq_ok_iff, Prod.exists]
  constructor
  · rintro ⟨_, unread, h, rfl⟩
    exact ⟨unread, h⟩
  · rintro ⟨unread, h⟩
    exact ⟨s, unread, h, rfl⟩

/-- Strict decoding succeeds if there are none. -/
theorem decodeStrictly_eq_ok_iff : frame.decodeStrictly = .ok s ↔ frame.decode = .ok (s, []) := by
  rw [decodeStrictly, Except.bind_eq_ok_iff]
  constructor
  · rintro ⟨⟨content, unread⟩, h, hunread⟩
    dsimp only at hunread
    split at hunread <;> cases hunread
    rename_i hnil
    rwa [hnil] at h
  · intro h
    exact ⟨(s, []), h, if_pos rfl⟩

end Frame

/-- The frame can stand in any stream, and it holds the section with nothing left unread. -/
structure FramedSection.Exact (p : FramedSection) : Prop where
  /-- The bytes of the frame determine the frame. -/
  intact : p.frame.Intact
  /-- The payload of the frame is that of the section. -/
  decode : p.frame.decode = .ok (p.content, [])

/-! ### Whole streams -/

/-- The stream consists of the bytes of a header and of frames that hold sections exactly. -/
structure ExactStream (bytes : List UInt8) (stream : Header × List FramedSection) : Prop where
  /-- The stream starts with the bytes of the header. -/
  header : Header.reader.Reads (bytes.take Header.size) stream.1
  /-- The bytes behind the header are those of the frames. -/
  body : bytes = bytes.take Header.size ++ FramedSection.join stream.2
  /-- Each frame holds its section exactly. -/
  exact : ∀ p ∈ stream.2, p.Exact

variable {bytes : List UInt8} {stream : Header × List FramedSection}

/-- **The streams that are decoded strictly** are those that are used up. -/
theorem decodeStream_decodeStrictly_eq_ok_iff :
    decodeStream Frame.decodeStrictly bytes = .ok stream ↔ ExactStream bytes stream := by
  obtain ⟨header, parts⟩ := stream
  simp only [decodeStream_eq_ok_iff, Frame.decodeStrictly_eq_ok_iff]
  constructor
  · rintro ⟨hheader, hbody, hall⟩
    exact ⟨hheader, hbody, fun p hp => ⟨(hall p hp).1, (hall p hp).2⟩⟩
  · rintro ⟨hheader, hbody, hexact⟩
    exact ⟨hheader, hbody, fun p hp => ⟨(hexact p hp).intact, (hexact p hp).decode⟩⟩

namespace ExactStream

/-- The lenient decoder of frames makes the same sections of the stream. -/
theorem decodeStream_eq_ok (h : ExactStream bytes stream) :
    decodeStream Frame.decodeLeniently bytes = .ok stream := by
  refine decodeStream_eq_ok_iff.mpr ⟨h.header, h.body, fun p hp => ⟨(h.exact p hp).intact, ?_⟩⟩
  exact Frame.decodeLeniently_eq_ok_iff.mpr ⟨[], (h.exact p hp).decode⟩

/-- The lenient decoder makes the module of the stream. -/
theorem decode_eq_ok (h : ExactStream bytes stream) :
    Module.decode bytes = .ok (.ofStream stream) := by
  rw [Module.decode_eq, h.decodeStream_eq_ok, Except.ok_map]

/-- The header takes up all of its bytes. -/
theorem length_take (h : ExactStream bytes stream) :
    (bytes.take Header.size).length = Header.size :=
  Header.length_of_reads h.header

theorem size_le_length (h : ExactStream bytes stream) : Header.size ≤ bytes.length := by
  have hlength := h.length_take
  rw [List.length_take] at hlength
  omega

/-- The stream is cut into the frames to its end. -/
theorem ofBytes_drop (h : ExactStream bytes stream) :
    Framing.ofBytes (bytes.drop Header.size) = ⟨stream.2.map (·.frame), none⟩ :=
  (framing_of_decodeStream (decodeStream_decodeStrictly_eq_ok_iff.mpr h)).2.1

/-- Other sections can be put behind the header. -/
theorem replace (h : ExactStream bytes stream) {parts : List FramedSection}
    (hparts : ∀ p ∈ parts, p.Exact) :
    ExactStream (bytes.take Header.size ++ FramedSection.join parts) (stream.1, parts) where
  header := by
    rw [List.take_left' h.length_take]
    exact h.header
  body := by rw [List.take_left' h.length_take]
  exact := hparts

end ExactStream

end WasmContract
