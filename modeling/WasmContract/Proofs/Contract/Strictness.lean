import WasmContract.Proofs.Contract.Reading

/-!
# Strict and lenient reading

The strict reader and the lenient decoder differ in one respect: the strict reader fails at the
first section that leaves bytes unread, unless another failure comes first. To say what comes first,
`places` lists the frames of a stream with their offsets, and `ModuleError.place` is the offset of a
failure.

The comparison goes along the frames, in `decodeFrames_of_eq_ok` for streams that the lenient
decoder accepts and in `decodeFrames_of_eq_error` for all others.
-/

namespace WasmContract

/-- The offset at which a failure arises; a header stands at the start. -/
def ModuleError.place : ModuleError → Nat
  | inHeader _ => 0
  | inSection _ offset _ => offset

/-- A frame at its place in a stream. -/
structure PlacedFrame where
  /-- The offset of the first byte. -/
  offset : Nat
  /-- The frame. -/
  frame : Frame
deriving DecidableEq, Repr, Inhabited

namespace PlacedFrame

/-- The offset of the first byte behind the frame. -/
def stop (p : PlacedFrame) : Nat := p.offset + p.frame.bytes.length

theorem stop_mk (offset : Nat) (frame : Frame) :
    stop ⟨offset, frame⟩ = offset + frame.bytes.length := rfl

/-- The error about the bytes that the section in the frame leaves unread; nothing if there are
none, or if the frame cannot be decoded. -/
def unreadError? (p : PlacedFrame) : Option ModuleError :=
  match p.frame.decode with
  | .error _ => none
  | .ok (content, unread) =>
    if unread = [] then none
    else some (.inSection p.frame.id p.offset (.trailingBytes content.kind unread.length))

end PlacedFrame

/-- Frames that follow one another, at their places from `offset` on. -/
def placeFrames : (offset : Nat) → List Frame → List PlacedFrame
  | _, [] => []
  | offset, frame :: later => ⟨offset, frame⟩ :: placeFrames (offset + frame.bytes.length) later

/-- The frames of a stream at their places. -/
def places (bytes : List UInt8) : List PlacedFrame :=
  placeFrames Header.size (Framing.ofBytes (bytes.drop Header.size)).frames

/-- The frames that lie wholly before an offset. -/
def wholeBefore (offset : Nat) (placed : List PlacedFrame) : List PlacedFrame :=
  placed.filter fun p => p.stop ≤ offset

/-- The error about the first section that leaves bytes unread. -/
def firstUnread? (placed : List PlacedFrame) : Option ModuleError :=
  placed.findSome? PlacedFrame.unreadError?

variable {offset limit : Nat} {p : PlacedFrame} {frame : Frame} {frames : List Frame}
  {parts : List FramedSection} {bytes : List UInt8} {content : Section} {cause : DecodeError}
  {e : ModuleError} {stream : Header × List FramedSection}

/-! ### Single frames -/

namespace PlacedFrame

/-- A frame that is decoded is decoded strictly, or there is an error about unread bytes. -/
theorem decodeStrictly_of_eq_ok (h : p.frame.decodeLeniently = .ok content) :
    p.frame.decodeStrictly.mapError (.inSection p.frame.id p.offset) =
      p.unreadError?.elim (.ok content) .error := by
  obtain ⟨unread, hdecode⟩ := Frame.decodeLeniently_eq_ok_iff.mp h
  rw [Frame.decodeStrictly, unreadError?, hdecode]
  simp only [Except.ok_bind]
  split <;> rfl

end PlacedFrame

/-- A frame that cannot be decoded fails either way. -/
theorem Frame.decodeStrictly_of_eq_error (h : frame.decodeLeniently = .error cause) :
    frame.decodeStrictly = .error cause := by
  rw [decodeLeniently, Except.map_eq_error_iff] at h
  rw [decodeStrictly, h, Except.error_bind]

/-! ### Places -/

/-- The frames stand between the first offset and the end of their bytes. -/
theorem bounds_of_mem_placeFrames (h : p ∈ placeFrames offset frames) :
    p.frame ∈ frames ∧ offset ≤ p.offset ∧
      p.stop ≤ offset + (frames.flatMap Frame.bytes).length := by
  induction frames generalizing offset with
  | nil => cases h
  | cons frame later ih =>
    rw [List.flatMap_cons, List.length_append]
    rcases List.mem_cons.mp h with rfl | h
    · exact ⟨List.mem_cons_self, Nat.le_refl _, by rw [PlacedFrame.stop_mk]; omega⟩
    · obtain ⟨hmem, hle, hstop⟩ := ih h
      exact ⟨List.mem_cons_of_mem frame hmem, by omega, by omega⟩

theorem wholeBefore_cons_of_le (h : p.stop ≤ limit) (placed : List PlacedFrame) :
    wholeBefore limit (p :: placed) = p :: wholeBefore limit placed :=
  List.filter_cons_of_pos (decide_eq_true h)

/-- No frame lies wholly before the place where the first one starts, as each takes bytes. -/
theorem wholeBefore_placeFrames_eq_nil (hframes : ∀ f ∈ frames, f.bytes ≠ [])
    (h : limit ≤ offset) : wholeBefore limit (placeFrames offset frames) = [] := by
  rw [wholeBefore, List.filter_eq_nil_iff]
  intro p hp
  obtain ⟨hmem, hle, -⟩ := bounds_of_mem_placeFrames hp
  have hpos := List.length_pos_iff.mpr (hframes p.frame hmem)
  rw [decide_eq_true_iff, PlacedFrame.stop]
  omega

/-- Frames that end in time all lie wholly before the limit. -/
theorem wholeBefore_placeFrames_eq_self
    (h : offset + (frames.flatMap Frame.bytes).length ≤ limit) :
    wholeBefore limit (placeFrames offset frames) = placeFrames offset frames := by
  rw [wholeBefore, List.filter_eq_self]
  intro p hp
  obtain ⟨-, -, hstop⟩ := bounds_of_mem_placeFrames hp
  rw [decide_eq_true_iff]
  omega

/-! ### Frames in order -/

/-- Decoding frames fails where the first of them starts, or behind it. -/
theorem le_place_of_decodeFrames {decode : Frame → Except DecodeError Section}
    (h : decodeFrames decode offset frames = .error e) : offset ≤ e.place := by
  obtain ⟨front, frame, back, cause, -, -, -, rfl⟩ := exists_of_decodeFrames_eq_error h
  exact Nat.le_add_right ..

/-- **Frames that can all be decoded** are decoded strictly as well, unless one of them leaves bytes
unread: then the first such frame is the place of the error. -/
theorem decodeFrames_of_eq_ok
    (h : decodeFrames Frame.decodeLeniently offset frames = .ok parts) :
    decodeFrames Frame.decodeStrictly offset frames =
      (firstUnread? (placeFrames offset frames)).elim (.ok parts) .error := by
  induction frames generalizing offset parts with
  | nil =>
    cases h
    rfl
  | cons frame later ih =>
    cases hframe : frame.decodeLeniently with
    | error cause =>
      rw [decodeFrames_cons_of_error hframe] at h
      cases h
    | ok content =>
      rw [decodeFrames_cons_of_ok hframe] at h
      obtain ⟨others, hothers, rfl⟩ := Except.map_eq_ok_iff.mp h
      have hstrict := PlacedFrame.decodeStrictly_of_eq_ok (p := ⟨offset, frame⟩) hframe
      rw [decodeFrames, hstrict, placeFrames, firstUnread?, List.findSome?_cons, ← firstUnread?]
      cases PlacedFrame.unreadError? ⟨offset, frame⟩ with
      | some e => rfl
      | none =>
        rw [Option.elim_none, Except.ok_bind, ih hothers]
        cases firstUnread? (placeFrames (offset + frame.bytes.length) later) <;> rfl

/-- **Frames of which one cannot be decoded** fail strictly too: at the first frame that leaves
bytes unread before the place of that error, or else with the same error. Each frame has to take
bytes, or one that leaves some unread could start where the error is. -/
theorem decodeFrames_of_eq_error (hframes : ∀ f ∈ frames, f.bytes ≠ [])
    (h : decodeFrames Frame.decodeLeniently offset frames = .error e) :
    decodeFrames Frame.decodeStrictly offset frames =
      .error ((firstUnread? (wholeBefore e.place (placeFrames offset frames))).getD e) := by
  induction frames generalizing offset with
  | nil => cases h
  | cons frame later ih =>
    cases hframe : frame.decodeLeniently with
    | error cause =>
      -- the failure lies at the start, so no frame lies before it
      have hbefore := wholeBefore_placeFrames_eq_nil hframes (Nat.le_refl offset)
      rw [decodeFrames_cons_of_error hframe] at h
      cases h
      rw [ModuleError.place, hbefore,
        decodeFrames_cons_of_error (Frame.decodeStrictly_of_eq_error hframe)]
      rfl
    | ok content =>
      -- the failure lies behind this frame, which comes first among those before the failure
      rw [decodeFrames_cons_of_ok hframe, Except.map_eq_error_iff] at h
      have hstrict := PlacedFrame.decodeStrictly_of_eq_ok (p := ⟨offset, frame⟩) hframe
      have hbefore : wholeBefore e.place (placeFrames offset (frame :: later)) =
          ⟨offset, frame⟩ ::
            wholeBefore e.place (placeFrames (offset + frame.bytes.length) later) :=
        wholeBefore_cons_of_le (le_place_of_decodeFrames h) _
      rw [decodeFrames, hstrict, hbefore, firstUnread?, List.findSome?_cons, ← firstUnread?]
      cases PlacedFrame.unreadError? ⟨offset, frame⟩ with
      | some e => rfl
      | none =>
        rw [Option.elim_none, Except.ok_bind,
          ih (fun f hf => hframes f (List.mem_cons_of_mem frame hf)) h]
        rfl

/-! ### Streams -/

/-- A stream that can be decoded is decoded strictly up to the first section that leaves bytes
unread. Cutting it into frames is the same in both cases. -/
theorem decodeStream_of_eq_ok (h : decodeStream Frame.decodeLeniently bytes = .ok stream) :
    decodeStream Frame.decodeStrictly bytes =
      (firstUnread? (places bytes)).elim (.ok stream) .error := by
  cases hread : Header.reader bytes with
  | error cause =>
    rw [decodeStream_of_error hread] at h
    cases h
  | ok p =>
    rw [decodeStream_of_ok hread, Except.bind_eq_ok_iff] at h
    obtain ⟨parts, hparts, hclose⟩ := h
    rw [decodeStream_of_ok hread, decodeFrames_of_eq_ok hparts, ← places]
    cases firstUnread? (places bytes) with
    | some e => rfl
    | none => exact hclose

/-- A stream that cannot be decoded fails strictly at the first section before the error that leaves
bytes unread, or else with the same error. Such an error is in the header, in a section, or behind
all frames; in the last case every frame lies wholly before it. -/
theorem decodeStream_of_eq_error (h : decodeStream Frame.decodeLeniently bytes = .error e) :
    decodeStream Frame.decodeStrictly bytes =
      .error ((firstUnread? (wholeBefore e.place (places bytes))).getD e) := by
  have hframes : ∀ f ∈ (Framing.ofBytes (bytes.drop Header.size)).frames, f.bytes ≠ [] :=
    fun f hf => (Framing.intact_of_mem _ f hf).bytes_ne_nil
  cases hread : Header.reader bytes with
  | error cause =>
    have hbefore := wholeBefore_placeFrames_eq_nil hframes (Nat.zero_le Header.size)
    rw [decodeStream_of_error hread] at h ⊢
    cases h
    rw [ModuleError.place, places, hbefore]
    rfl
  | ok p =>
    rw [decodeStream_of_ok hread, Except.bind_eq_error_iff] at h
    rw [decodeStream_of_ok hread]
    rcases h with h | ⟨parts, hparts, hclose⟩
    · rw [decodeFrames_of_eq_error hframes h, ← places]
      rfl
    · -- all frames are decoded, so the failure lies behind them
      obtain ⟨id, cause, hfailure, rfl⟩ := Framing.close_eq_error_iff.mp hclose
      rw [decodeFrames_of_eq_ok hparts, ModuleError.place, places,
        wholeBefore_placeFrames_eq_self (Nat.le_refl _), ← places]
      cases firstUnread? (places bytes) with
      | some e => rfl
      | none => exact Framing.close_eq_error_iff.mpr ⟨id, cause, hfailure, rfl⟩

/-! ### Causes of failure -/

/-- A stream fails because its bytes are at fault, or because a frame cannot be decoded. -/
theorem cause_of_decodeStream {decode : Frame → Except DecodeError Section}
    (h : decodeStream decode bytes = .error e) :
    e.rootCause.OfBytes ∨ ∃ frame, decode frame = .error e.rootCause := by
  cases hread : Header.reader bytes with
  | error cause =>
    rw [decodeStream_of_error hread] at h
    cases h
    exact .inl (Header.lawful_reader.cause hread)
  | ok p =>
    rw [decodeStream_of_ok hread, Except.bind_eq_error_iff] at h
    rcases h with h | ⟨parts, -, hclose⟩
    · obtain ⟨_, frame, _, cause, -, -, hframe, rfl⟩ := exists_of_decodeFrames_eq_error h
      exact .inr ⟨frame, hframe⟩
    · obtain ⟨id, cause, hfailure, rfl⟩ := Framing.close_eq_error_iff.mp hclose
      exact .inl (Framing.ofBytes_of_failure hfailure)

/-- Besides the bytes at fault, only bytes left unread make strict decoding fail. -/
theorem Frame.cause_of_decodeStrictly (h : frame.decodeStrictly = .error cause) :
    cause.OfBytes ∨ ∃ kind count, cause = .trailingBytes kind count := by
  rw [decodeStrictly, Except.bind_eq_error_iff] at h
  rcases h with h | ⟨⟨content, unread⟩, -, h⟩
  · exact .inl (Section.ofBytes_of_ofPayload h)
  · dsimp only at h
    split at h <;> cases h
    exact .inr ⟨_, _, rfl⟩

namespace Contract

variable {c : Contract} {m : Module}

/-- The strict reader fails because the bytes are at fault or left unread, and for no other
reason. -/
theorem cause_of_read (h : read bytes = .error e) :
    e.rootCause.OfBytes ∨ ∃ kind count, e.rootCause = .trailingBytes kind count := by
  rw [read_eq, Except.map_eq_error_iff] at h
  rcases cause_of_decodeStream h with h | ⟨frame, hframe⟩
  · exact .inl h
  · exact Frame.cause_of_decodeStrictly hframe

/-- A stream that can be decoded is read strictly if no section leaves bytes unread, and only then.
-/
theorem read_eq_ok_iff_of_decode (h : Module.decode bytes = .ok m) : (∃ c, read bytes = .ok c) ↔
    ∀ p ∈ places bytes, ∃ s, p.frame.decode = .ok (s, []) := by
  constructor
  · rintro ⟨c, hread⟩ p hp
    obtain ⟨stream, hstream, -⟩ := read_eq_ok_iff.mp hread
    obtain ⟨hmem, -⟩ := bounds_of_mem_placeFrames hp
    rw [hstream.ofBytes_drop] at hmem
    obtain ⟨q, hq, heq⟩ := List.mem_map.mp hmem
    exact ⟨q.content, heq ▸ (hstream.exact q hq).decode⟩
  · intro hall
    have hnone : firstUnread? (places bytes) = none := by
      refine List.findSome?_eq_none_iff.mpr fun p hp => ?_
      obtain ⟨s, hs⟩ := hall p hp
      rw [PlacedFrame.unreadError?, hs]
      rfl
    rw [Module.decode_eq, Except.map_eq_ok_iff] at h
    obtain ⟨stream, hstream, -⟩ := h
    rw [read_eq, decodeStream_of_eq_ok hstream, hnone]
    exact ⟨_, rfl⟩

/-- On a stream that can be decoded, the first section that leaves bytes unread is the only error of
the strict reader. -/
theorem read_eq_error_iff_of_decode (h : Module.decode bytes = .ok m) :
    read bytes = .error e ↔ firstUnread? (places bytes) = some e := by
  rw [Module.decode_eq, Except.map_eq_ok_iff] at h
  obtain ⟨stream, hstream, -⟩ := h
  rw [read_eq, Except.map_eq_error_iff, decodeStream_of_eq_ok hstream]
  cases firstUnread? (places bytes) <;> simp

/-- On any other stream it reports the error of the decoder, or unread bytes before its place. -/
theorem read_eq_error_of_decode (h : Module.decode bytes = .error e) :
    read bytes = .error ((firstUnread? (wholeBefore e.place (places bytes))).getD e) := by
  rw [Module.decode_eq, Except.map_eq_error_iff] at h
  rw [read_eq, decodeStream_of_eq_error h, Except.error_map]

/-- **The strict reader and the lenient decoder agree.** When the decoder gives a module, the strict
reader gives its contract, or fails at the first section that leaves bytes unread. When the decoder
fails, the strict reader fails too, at the first section wholly before the place of the failure that
leaves bytes unread, or else in the same way. Neither fails over exports that are written. -/
theorem agreement (bytes : List UInt8) :
    (∀ m, Module.decode bytes = .ok m →
      ((∃ c, read bytes = .ok c) ↔ ∀ p ∈ places bytes, ∃ s, p.frame.decode = .ok (s, [])) ∧
      ∀ e, read bytes = .error e ↔ firstUnread? (places bytes) = some e) ∧
    (∀ e, Module.decode bytes = .error e →
      read bytes = .error ((firstUnread? (wholeBefore e.place (places bytes))).getD e)) ∧
    (∀ m c, Module.decode bytes = .ok m → read bytes = .ok c →
      c.types = m.entries Section.types? ∧ c.imports = m.entries Section.imports? ∧
      c.functions = m.entries Section.functions? ∧
      (c.hasStart ↔ m.Has .start) ∧ (c.hasCustom ↔ m.Has .custom)) ∧
    ∀ e quantity found limit, read bytes = .error e →
      e.rootCause ≠ .exportBound quantity found limit := by
  refine ⟨fun m h => ⟨read_eq_ok_iff_of_decode h, fun e => read_eq_error_iff_of_decode h⟩,
    fun e h => read_eq_error_of_decode h, ?_, ?_⟩
  · intro m c hdecode hread
    obtain ⟨m', hdecode', hc⟩ := eq_ofModule_of_read hread
    cases hdecode.symm.trans hdecode'
    rw [hc]
    exact ⟨rfl, rfl, rfl, decide_eq_true_iff, decide_eq_true_iff⟩
  · intro e quantity found limit hread hcause
    rcases cause_of_read hread with h | ⟨kind, count, h⟩
    · rw [hcause] at h
      exact h
    · cases hcause.symm.trans h

/-- A start section that leaves a byte unread stands behind a custom section, or before or behind a
section of a kind that does not exist. Only the strict reader fails over the byte, and not if it
fails before it. -/
theorem agreement_unread_start :
    let header : List UInt8 := [0x00, 0x61, 0x73, 0x6d, 0x01, 0x00, 0x00, 0x00]
    let start : List UInt8 := [0x08, 0x02, 0x05, 0xff]
    let custom : List UInt8 := [0x00, 0x02, 0x01, 0x61]
    let foreign : List UInt8 := [0x0c, 0x00]
    let m : Module := { sections := [.custom (.raw "a" []), .start 5] }
    let m' : Module := { sections := [.custom (.raw "a" [])] }
    let c : Contract := { hasCustom := true, bytes := header }
    Module.decode (header ++ custom ++ start) = .ok m ∧
      read (header ++ custom ++ start) = .error (.inSection 8 12 (.trailingBytes .start 1)) ∧
      Module.decode (header ++ start ++ foreign) =
        .error (.inSection 12 12 (.invalidSectionId 12)) ∧
      read (header ++ start ++ foreign) = .error (.inSection 8 8 (.trailingBytes .start 1)) ∧
      Module.decode (header ++ foreign ++ start) =
        .error (.inSection 12 8 (.invalidSectionId 12)) ∧
      read (header ++ foreign ++ start) = .error (.inSection 12 8 (.invalidSectionId 12)) ∧
      Module.decode (header ++ custom) = .ok m' ∧ read (header ++ custom) = .ok c ∧
      (c.hasCustom ↔ m'.Has .custom) := by
  intro header start custom foreign m m' c
  have hm : Module.decode (header ++ custom ++ start) = .ok m := by decide +kernel
  have hunread : firstUnread? (places (header ++ custom ++ start)) =
      some (.inSection 8 12 (.trailingBytes .start 1)) := by decide +kernel
  have hbehind : Module.decode (header ++ start ++ foreign) =
      .error (.inSection 12 12 (.invalidSectionId 12)) := by decide +kernel
  have hbefore : Module.decode (header ++ foreign ++ start) =
      .error (.inSection 12 8 (.invalidSectionId 12)) := by decide +kernel
  have hcustom : Module.decode (header ++ custom) = .ok m' := by decide +kernel
  have hread : read (header ++ custom) = .ok c := by decide +kernel
  refine ⟨hm, (((agreement _).1 m hm).2 _).mpr hunread, hbehind, ?_, hbefore, ?_, hcustom, hread,
    ((agreement _).2.2.1 _ c hcustom hread).2.2.2.2⟩
  · exact ((agreement _).2.1 _ hbehind).trans (by decide +kernel)
  · exact ((agreement _).2.1 _ hbefore).trans (by decide +kernel)

end Contract

end WasmContract
