import WasmContract.Module.Traversal
import WasmContract.Proofs.Module.Header
import WasmContract.Proofs.Section.Payload

/-!
# Streams of sections

Both ways to read a module visit the sections of a stream in order, and differ in what they make of
a single frame. `decodeStream` is what they share: given a decoder for one frame, it gives the
sections of a stream with their frames, or the first failure with its place.

* `outcome_traverse`: a traversal whose steps decode a frame and then update a state is
  `decodeStream` followed by a fold.
* `decodeStream_eq_ok_iff`: the streams that are decoded are exactly a header followed by the bytes
  of intact frames, each of which is decoded.
-/

namespace WasmContract

open Reader

/-- A section together with the frame from which it was decoded. -/
structure FramedSection where
  /-- The frame. -/
  frame : Frame
  /-- The section in it. -/
  content : Section
deriving DecidableEq, Repr, Inhabited

/-- Decodes frames in order, the first of which starts at `offset`. -/
def decodeFrames (decode : Frame → Except DecodeError Section) :
    (offset : Nat) → List Frame → Except ModuleError (List FramedSection)
  | _, [] => .ok []
  | offset, frame :: later =>
    ((decode frame).mapError (.inSection frame.id offset)).bind fun content =>
      (decodeFrames decode (offset + frame.bytes.length) later).map (⟨frame, content⟩ :: ·)

/-- Gives a value if a stream ends with its last frame, and otherwise the failure behind that frame.
The first frame starts at `offset`. -/
def Framing.close {α : Type} (framing : Framing) (offset : Nat) (a : α) : Except ModuleError α :=
  match framing.failure with
  | some (id, cause) =>
    .error (.inSection id (offset + (framing.frames.flatMap Frame.bytes).length) cause)
  | none => .ok a

/-- Decodes the header of a stream and the sections behind it. -/
def decodeStream (decode : Frame → Except DecodeError Section) (bytes : List UInt8) :
    Except ModuleError (Header × List FramedSection) :=
  ((Header.reader bytes).mapError .inHeader).bind fun (header, body) =>
    let framing := Framing.ofBytes body
    (decodeFrames decode Header.size framing.frames).bind fun parts =>
      framing.close Header.size (header, parts)

variable {decode : Frame → Except DecodeError Section} {offset : Nat} {frames : List Frame}
  {frame : Frame} {later : List Frame} {content : Section} {parts : List FramedSection}
  {bytes : List UInt8} {header : Header} {cause : DecodeError} {e : ModuleError}

theorem decodeFrames_cons_of_ok (h : decode frame = .ok content) :
    decodeFrames decode offset (frame :: later) =
      (decodeFrames decode (offset + frame.bytes.length) later).map (⟨frame, content⟩ :: ·) := by
  rw [decodeFrames, h, Except.ok_mapError, Except.ok_bind]

theorem decodeFrames_cons_of_error (h : decode frame = .error cause) :
    decodeFrames decode offset (frame :: later) = .error (.inSection frame.id offset cause) := by
  rw [decodeFrames, h, Except.error_mapError, Except.error_bind]

/-! ### Traversals -/

section Traversal

variable {σ : Type} {step : Nat → σ → Frame → Logged DecodeError σ} (Inv : σ → Prop)
  (update : σ → FramedSection → σ)

/-- A visit whose steps decode a frame and then update the state decodes all frames and then
updates the state with one section after the other. The steps may rely on an invariant of the
states. -/
theorem outcome_visitFrames
    (hstep : ∀ offset state frame, Inv state → (step offset state frame).outcome =
      (decode frame).map fun content => update state ⟨frame, content⟩)
    (hinv : ∀ state part, Inv state → Inv (update state part)) {state : σ} (hstate : Inv state) :
    (visitFrames step offset state frames).outcome =
      (decodeFrames decode offset frames).map fun parts =>
        (offset + (frames.flatMap Frame.bytes).length, parts.foldl update state) := by
  induction frames generalizing offset state with
  | nil => rfl
  | cons frame later ih =>
    rw [visitFrames, Logged.outcome_bind, Logged.outcome_mapError, hstep _ _ _ hstate]
    cases hframe : decode frame with
    | error cause =>
      rw [decodeFrames_cons_of_error hframe]
      rfl
    | ok content =>
      rw [decodeFrames_cons_of_ok hframe, Except.ok_map, Except.ok_mapError, Except.ok_bind,
        ih (hinv _ _ hstate)]
      cases decodeFrames decode (offset + frame.bytes.length) later with
      | error e => rfl
      | ok parts => simp [Nat.add_assoc]

/-- **A traversal in closed form.** If each step decodes a frame and then updates a state, the whole
decodes the stream and then updates the state with one section after the other. The steps may rely
on an invariant of the states. -/
theorem outcome_traverse {start : Header → σ}
    (hstep : ∀ offset state frame, Inv state → (step offset state frame).outcome =
      (decode frame).map fun content => update state ⟨frame, content⟩)
    (hinv : ∀ state part, Inv state → Inv (update state part))
    (hstart : ∀ header, Inv (start header)) :
    (traverse start step bytes).outcome =
      (decodeStream decode bytes).map fun p => p.2.foldl update (start p.1) := by
  rw [traverse, Logged.outcome_bind, Logged.outcome_mapError, Logged.outcome_ofExcept, decodeStream]
  cases Header.reader bytes with
  | error cause => rfl
  | ok p =>
    simp only [Except.ok_mapError, Except.ok_bind]
    rw [visitSections, Logged.outcome_bind, outcome_visitFrames Inv update hstep hinv (hstart _)]
    cases decodeFrames decode Header.size (Framing.ofBytes p.2).frames with
    | error e => rfl
    | ok parts =>
      simp only [Except.ok_map, Except.ok_bind, Framing.close]
      cases (Framing.ofBytes p.2).failure <;> rfl

end Traversal

/-! ### The streams that are decoded -/

/-- Frames are decoded if each of them is, with no regard to where they stand. -/
theorem decodeFrames_eq_ok_iff : decodeFrames decode offset frames = .ok parts ↔
    frames = parts.map (·.frame) ∧ ∀ p ∈ parts, decode p.frame = .ok p.content := by
  constructor
  · intro h
    induction frames generalizing offset parts with
    | nil =>
      cases h
      simp
    | cons frame later ih =>
      cases hframe : decode frame with
      | error cause =>
        rw [decodeFrames_cons_of_error hframe] at h
        cases h
      | ok content =>
        rw [decodeFrames_cons_of_ok hframe] at h
        obtain ⟨others, hothers, rfl⟩ := Except.map_eq_ok_iff.mp h
        obtain ⟨rfl, hall⟩ := ih hothers
        exact ⟨rfl, List.forall_mem_cons.mpr ⟨hframe, hall⟩⟩
  · rintro ⟨rfl, hall⟩
    induction parts generalizing offset with
    | nil => rfl
    | cons p others ih =>
      obtain ⟨hp, hothers⟩ := List.forall_mem_cons.mp hall
      rw [List.map_cons, decodeFrames_cons_of_ok hp, ih hothers, Except.ok_map]

/-- Decoding frames fails at the first frame that cannot be decoded. -/
theorem exists_of_decodeFrames_eq_error (h : decodeFrames decode offset frames = .error e) :
    ∃ front frame back cause, frames = front ++ frame :: back ∧
      (∀ f ∈ front, ∃ content, decode f = .ok content) ∧ decode frame = .error cause ∧
      e = .inSection frame.id (offset + (front.flatMap Frame.bytes).length) cause := by
  induction frames generalizing offset with
  | nil => cases h
  | cons frame later ih =>
    cases hframe : decode frame with
    | error cause =>
      rw [decodeFrames_cons_of_error hframe] at h
      cases h
      exact ⟨[], frame, later, cause, rfl, List.forall_mem_nil _, hframe, rfl⟩
    | ok content =>
      rw [decodeFrames_cons_of_ok hframe, Except.map_eq_error_iff] at h
      obtain ⟨front, f, back, cause, rfl, hfront, hcause, rfl⟩ := ih h
      refine ⟨frame :: front, f, back, cause, rfl,
        List.forall_mem_cons.mpr ⟨⟨content, hframe⟩, hfront⟩, hcause, ?_⟩
      rw [List.flatMap_cons, List.length_append, Nat.add_assoc]

/-- The bytes of the frames of sections, one after the other. -/
def FramedSection.join (parts : List FramedSection) : List UInt8 :=
  parts.flatMap fun p => p.frame.bytes

theorem FramedSection.join_cons (p : FramedSection) (later : List FramedSection) :
    join (p :: later) = p.frame.bytes ++ join later :=
  List.flatMap_cons

theorem FramedSection.join_append (parts later : List FramedSection) :
    join (parts ++ later) = join parts ++ join later :=
  List.flatMap_append

theorem FramedSection.flatMap_map_frame (parts : List FramedSection) :
    (parts.map (·.frame)).flatMap Frame.bytes = join parts := by
  rw [List.flatMap_map, join]

theorem Framing.close_eq_ok_iff {α : Type} {framing : Framing} {a b : α} :
    framing.close offset a = .ok b ↔ framing.failure = none ∧ a = b := by
  rw [close]
  cases framing.failure <;> simp

/-- Otherwise the failure is placed behind the last frame. -/
theorem Framing.close_eq_error_iff {α : Type} {framing : Framing} {a : α} :
    framing.close offset a = .error e ↔ ∃ id cause, framing.failure = some (id, cause) ∧
      e = .inSection id (offset + (framing.frames.flatMap Frame.bytes).length) cause := by
  rw [close]
  constructor
  · intro h
    split at h <;> cases h
    exact ⟨_, _, ‹_›, rfl⟩
  · rintro ⟨id, cause, hfailure, rfl⟩
    rw [hfailure]

theorem decodeStream_of_error (h : Header.reader bytes = .error cause) :
    decodeStream decode bytes = .error (.inHeader cause) := by
  rw [decodeStream, h, Except.error_mapError, Except.error_bind]

/-- The frames are those behind the first eight bytes. -/
theorem decodeStream_of_ok {body : List UInt8} (h : Header.reader bytes = .ok (header, body)) :
    decodeStream decode bytes =
      (decodeFrames decode Header.size (Framing.ofBytes (bytes.drop Header.size)).frames).bind
        fun parts =>
          (Framing.ofBytes (bytes.drop Header.size)).close Header.size (header, parts) := by
  obtain ⟨-, rfl, -⟩ := Header.reads_take_of_reader_eq_ok h
  rw [decodeStream, h, Except.ok_mapError, Except.ok_bind]

/-- A stream that is decoded is cut behind its header into the frames, each of which is decoded. -/
theorem framing_of_decodeStream (h : decodeStream decode bytes = .ok (header, parts)) :
    Header.reader.Reads (bytes.take Header.size) header ∧
      Framing.ofBytes (bytes.drop Header.size) = ⟨parts.map (·.frame), none⟩ ∧
      ∀ p ∈ parts, decode p.frame = .ok p.content := by
  cases hread : Header.reader bytes with
  | error cause =>
    rw [decodeStream_of_error hread] at h
    cases h
  | ok p =>
    obtain ⟨header', body⟩ := p
    rw [decodeStream_of_ok hread, Except.bind_eq_ok_iff] at h
    obtain ⟨parts', hparts, hclose⟩ := h
    obtain ⟨hfailure, heq⟩ := Framing.close_eq_ok_iff.mp hclose
    cases heq
    obtain ⟨hreads, -, -⟩ := Header.reads_take_of_reader_eq_ok hread
    obtain ⟨hframes, hdecode⟩ := decodeFrames_eq_ok_iff.mp hparts
    exact ⟨hreads, by rw [← hframes, ← hfailure], hdecode⟩

/-- **The streams that are decoded.** They consist of a header and the bytes of intact frames, each
of which is decoded. -/
theorem decodeStream_eq_ok_iff : decodeStream decode bytes = .ok (header, parts) ↔
    Header.reader.Reads (bytes.take Header.size) header ∧
      bytes = bytes.take Header.size ++ FramedSection.join parts ∧
      ∀ p ∈ parts, p.frame.Intact ∧ decode p.frame = .ok p.content := by
  constructor
  · intro h
    obtain ⟨hreads, hframing, hdecode⟩ := framing_of_decodeStream h
    obtain ⟨hjoin, hintact⟩ := Framing.ofBytes_eq_iff.mp hframing
    refine ⟨hreads, ?_, fun p hp => ⟨hintact _ (List.mem_map_of_mem hp), hdecode p hp⟩⟩
    rw [← FramedSection.flatMap_map_frame, ← hjoin, List.take_append_drop]
  · rintro ⟨hreads, hbytes, hall⟩
    have hread : Header.reader bytes = .ok (header, FramedSection.join parts) := by
      rw [hbytes]
      exact hreads _
    obtain ⟨-, hdrop, -⟩ := Header.reads_take_of_reader_eq_ok hread
    have hframing : Framing.ofBytes (bytes.drop Header.size) = ⟨parts.map (·.frame), none⟩ := by
      rw [← hdrop, Framing.ofBytes_eq_iff, FramedSection.flatMap_map_frame]
      refine ⟨rfl, fun f hf => ?_⟩
      obtain ⟨p, hp, rfl⟩ := List.mem_map.mp hf
      exact (hall p hp).1
    rw [decodeStream_of_ok hread, Except.bind_eq_ok_iff, hframing]
    exact ⟨parts, decodeFrames_eq_ok_iff.mpr ⟨rfl, fun p hp => (hall p hp).2⟩, rfl⟩

end WasmContract
