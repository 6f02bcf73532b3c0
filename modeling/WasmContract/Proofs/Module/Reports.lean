import WasmContract.Proofs.Contract.Strictness
import WasmContract.Proofs.Log

/-!
# Reports along a stream

Both ways to read a module make records while they visit the frames of a stream. `Reports` says what
single steps report: something about each section that is decoded, and at most one record about a
failure. Then a whole traversal reports on the sections that it reaches, in their order, and last on
its failure, if it has one (`Reports.sectionRecords_traverse`). Where it stops is told by the place
of its error (`reached`).
-/

namespace WasmContract

open Logged

/-- The frames that lie before the place where a computation stops; all of them if it goes through
to the end. -/
def reached {α : Type} (result : Except ModuleError α) (placed : List PlacedFrame) :
    List PlacedFrame :=
  match result with
  | .ok _ => placed
  | .error e => wholeBefore e.place placed

/-- The record about the failure of a computation; nothing if it does not fail, or if failures for
its cause are not recorded. -/
def failureRecord? {α : Type} (fault : DecodeError → Option Record) :
    Except ModuleError α → Option Record
  | .ok _ => none
  | .error e => fault e.rootCause

/-- The steps of a traversal decode a frame, update a state and report: `told` about a section that
is decoded, and `fault` about one that is not. Nothing is reported of bytes that are no frame. The
steps may rely on an invariant of the states. -/
structure Reports {σ : Type} (decode : Frame → Except DecodeError Section)
    (step : Nat → σ → Frame → Logged DecodeError σ) (Inv : σ → Prop)
    (update : σ → FramedSection → σ) (told : PlacedFrame → List Record)
    (fault : DecodeError → Option Record) : Prop where
  /-- A step decodes a frame and updates the state. -/
  outcome : ∀ offset state frame, Inv state → (step offset state frame).outcome =
    (decode frame).map fun content => update state ⟨frame, content⟩
  /-- The invariant is kept. -/
  inv : ∀ state part, Inv state → Inv (update state part)
  /-- The report on a section that is decoded. -/
  decoded : ∀ offset state frame content, Inv state → decode frame = .ok content →
    (step offset state frame).sectionRecords = told ⟨offset, frame⟩
  /-- The report on a section that is not decoded. -/
  failed : ∀ offset state frame cause, Inv state → decode frame = .error cause →
    (step offset state frame).sectionRecords = (fault cause).toList
  /-- Bytes that are at fault themselves are not reported. -/
  quiet : ∀ cause, cause.OfBytes → fault cause = none

variable {σ α β : Type} {decode : Frame → Except DecodeError Section}
  {step : Nat → σ → Frame → Logged DecodeError σ} {Inv : σ → Prop}
  {update : σ → FramedSection → σ} {told : PlacedFrame → List Record}
  {fault : DecodeError → Option Record} {offset : Nat} {bytes : List UInt8} {frame : Frame}
  {frames : List Frame} {content : Section} {cause : DecodeError} {p : PlacedFrame}

/-! ### The frames that are reached -/

theorem reached_map (g : α → β) (result : Except ModuleError α) (placed : List PlacedFrame) :
    reached (result.map g) placed = reached result placed := by
  cases result <;> rfl

theorem failureRecord?_map (g : α → β) (result : Except ModuleError α) :
    failureRecord? fault (result.map g) = failureRecord? fault result := by
  cases result <;> rfl

theorem mem_of_mem_reached {result : Except ModuleError α} {placed : List PlacedFrame}
    (h : p ∈ reached result placed) : p ∈ placed := by
  cases result with
  | ok a => exact h
  | error e => exact List.mem_of_mem_filter h

/-- If the first frame is not decoded, none is reached. -/
theorem reached_of_error (hframes : ∀ f ∈ frame :: frames, f.Intact)
    (h : decode frame = .error cause) :
    reached (decodeFrames decode offset (frame :: frames))
      (placeFrames offset (frame :: frames)) = [] := by
  rw [decodeFrames_cons_of_error h]
  exact wholeBefore_placeFrames_eq_nil (fun f hf => (hframes f hf).bytes_ne_nil)
    (Nat.le_refl offset)

/-- If the first frame is decoded, it is reached, and then the later ones that are. -/
theorem reached_of_ok (h : decode frame = .ok content) :
    reached (decodeFrames decode offset (frame :: frames))
        (placeFrames offset (frame :: frames)) =
      ⟨offset, frame⟩ ::
        reached (decodeFrames decode (offset + frame.bytes.length) frames)
          (placeFrames (offset + frame.bytes.length) frames) := by
  rw [decodeFrames_cons_of_ok h, placeFrames]
  cases hlater : decodeFrames decode (offset + frame.bytes.length) frames with
  | ok parts => rfl
  | error e =>
    have hle : PlacedFrame.stop ⟨offset, frame⟩ ≤ e.place := le_place_of_decodeFrames hlater
    exact wholeBefore_cons_of_le hle _

/-- Every frame that is reached is decoded. -/
theorem decodes_of_mem_reached (hframes : ∀ f ∈ frames, f.Intact)
    (h : p ∈ reached (decodeFrames decode offset frames) (placeFrames offset frames)) :
    ∃ content, decode p.frame = .ok content := by
  induction frames generalizing offset with
  | nil => cases h
  | cons frame later ih =>
    cases hframe : decode frame with
    | error cause =>
      rw [reached_of_error hframes hframe] at h
      cases h
    | ok content =>
      rw [reached_of_ok hframe] at h
      rcases List.mem_cons.mp h with rfl | h
      · exact ⟨content, hframe⟩
      · exact ih (fun f hf => hframes f (List.mem_cons_of_mem frame hf)) h

/-- Without a header no frame is reached. -/
theorem reached_of_header_error (h : Header.reader bytes = .error cause) :
    reached (decodeStream decode bytes) (places bytes) = [] := by
  rw [decodeStream_of_error h]
  exact wholeBefore_placeFrames_eq_nil
    (fun f hf => (Framing.intact_of_mem _ f hf).bytes_ne_nil) (Nat.zero_le _)

/-- What follows the last frame of a stream is behind all frames that are reached. -/
theorem reached_of_header {header : Header} {body : List UInt8}
    (h : Header.reader bytes = .ok (header, body)) :
    reached (decodeStream decode bytes) (places bytes) =
      reached (decodeFrames decode Header.size (Framing.ofBytes (bytes.drop Header.size)).frames)
        (places bytes) := by
  rw [decodeStream_of_ok h]
  cases decodeFrames decode Header.size (Framing.ofBytes (bytes.drop Header.size)).frames with
  | error e => rfl
  | ok parts =>
    rw [Except.ok_bind, Framing.close]
    cases (Framing.ofBytes (bytes.drop Header.size)).failure with
    | none => rfl
    | some stop => exact wholeBefore_placeFrames_eq_self (Nat.le_refl _)

/-- Every frame of a stream that is reached is decoded. -/
theorem exists_decode_of_mem_reached (h : p ∈ reached (decodeStream decode bytes) (places bytes)) :
    ∃ content, decode p.frame = .ok content := by
  cases hheader : Header.reader bytes with
  | error cause =>
    rw [reached_of_header_error hheader] at h
    cases h
  | ok found =>
    rw [reached_of_header hheader, places] at h
    exact decodes_of_mem_reached (Framing.intact_of_mem _) h

/-! ### Traversals -/

namespace Reports

variable (h : Reports decode step Inv update told fault)
include h

/-- **Frames are reported one by one**, up to the first one that is not decoded. -/
theorem sectionRecords_visitFrames (hframes : ∀ f ∈ frames, f.Intact) (offset : Nat) {state : σ}
    (hstate : Inv state) :
    (visitFrames step offset state frames).sectionRecords =
      (reached (decodeFrames decode offset frames) (placeFrames offset frames)).flatMap told ++
        (failureRecord? fault (decodeFrames decode offset frames)).toList := by
  induction frames generalizing offset state with
  | nil => rfl
  | cons frame later ih =>
    have hlater := fun f hf => hframes f (List.mem_cons_of_mem frame hf)
    have houtcome : ((step offset state frame).mapError (.inSection frame.id offset)).outcome =
        ((decode frame).map fun content => update state ⟨frame, content⟩).mapError
          (ModuleError.inSection frame.id offset) := by
      rw [outcome_mapError, h.outcome offset state frame hstate]
    rw [visitFrames]
    cases hframe : decode frame with
    | error cause =>
      rw [hframe] at houtcome
      rw [sectionRecords_bind_of_error houtcome, sectionRecords_mapError,
        h.failed offset state frame cause hstate hframe, reached_of_error hframes hframe,
        decodeFrames_cons_of_error hframe]
      rfl
    | ok content =>
      rw [hframe] at houtcome
      rw [sectionRecords_bind_of_ok houtcome, sectionRecords_mapError,
        h.decoded offset state frame content hstate hframe, ih hlater _ (h.inv state _ hstate),
        reached_of_ok hframe, decodeFrames_cons_of_ok hframe, failureRecord?_map,
        List.flatMap_cons, List.append_assoc]

/-- Bytes behind the last frame, if they are no frame, leave the failure of the frames as it is. -/
theorem failureRecord?_of_header {header : Header} {body : List UInt8}
    (hheader : Header.reader bytes = .ok (header, body)) :
    failureRecord? fault (decodeStream decode bytes) =
      failureRecord? fault
        (decodeFrames decode Header.size (Framing.ofBytes (bytes.drop Header.size)).frames) := by
  rw [decodeStream_of_ok hheader]
  cases decodeFrames decode Header.size (Framing.ofBytes (bytes.drop Header.size)).frames with
  | error e => rfl
  | ok parts =>
    rw [Except.ok_bind, Framing.close]
    cases hfailure : (Framing.ofBytes (bytes.drop Header.size)).failure with
    | none => rfl
    | some stop => exact h.quiet stop.2 (Framing.ofBytes_of_failure hfailure)

/-- **The records of a traversal** about sections are those about the frames that it reaches, and
then that about its failure. -/
theorem sectionRecords_traverse {start : Header → σ} (hstart : ∀ header, Inv (start header))
    (bytes : List UInt8) :
    (traverse start step bytes).sectionRecords =
      (reached (decodeStream decode bytes) (places bytes)).flatMap told ++
        (failureRecord? fault (decodeStream decode bytes)).toList := by
  rw [traverse]
  cases hheader : Header.reader bytes with
  | error cause =>
    have hquiet : fault cause = none := h.quiet cause (Header.lawful_reader.cause hheader)
    rw [reached_of_header_error hheader, decodeStream_of_error hheader, failureRecord?,
      ModuleError.rootCause, hquiet]
    rfl
  | ok found =>
    obtain ⟨header, body⟩ := found
    obtain ⟨-, rfl, -⟩ := Header.reads_take_of_reader_eq_ok hheader
    rw [reached_of_header hheader, h.failureRecord?_of_header hheader, places,
      ← h.sectionRecords_visitFrames (Framing.intact_of_mem _) Header.size (hstart header)]
    have hstart : ((ofExcept (.ok (header, bytes.drop Header.size))).mapError
        ModuleError.inHeader).outcome = .ok (header, bytes.drop Header.size) := rfl
    rw [sectionRecords_bind_of_ok hstart]
    -- behind the last frame there is nothing more to report
    refine sectionRecords_bind_of_eq_nil fun found => ?_
    dsimp only
    split <;> rfl

end Reports

end WasmContract
