import WasmContract.Module.Basic
import WasmContract.Proofs.Module.Stream

/-!
# Decoded modules

The lenient decoder is `decodeStream` with a decoder of frames that passes over unread bytes
(`Module.decode_eq`). Questions about a module as a whole concern the sections of one kind together:
`Module.entries` joins what they list, and `Module.Has` asks whether there are any.
-/

namespace WasmContract

/-- What a section lists under a view; nothing if the view is of another kind of sections. -/
def Section.entries {α : Type} (view : Section → Option (List α)) (s : Section) : List α :=
  (view s).getD []

namespace Module

/-- The entries of all sections of one kind, in the order of the stream. -/
def entries {α : Type} (view : Section → Option (List α)) (m : Module) : List α :=
  m.sections.flatMap (Section.entries view)

/-- There is a section of the kind. -/
def Has (kind : SectionKind) (m : Module) : Prop := ∃ s ∈ m.sections, s.kind = kind

instance (kind : SectionKind) (m : Module) : Decidable (m.Has kind) :=
  inferInstanceAs (Decidable (∃ s ∈ m.sections, s.kind = kind))

/-- The module of the sections in a stream. -/
def ofStream (stream : Header × List FramedSection) : Module where
  header := stream.1
  sections := stream.2.map (·.content)

/-- Adds a section at the end. -/
def add (m : Module) (p : FramedSection) : Module :=
  { m with sections := m.sections ++ [p.content] }

/-- Sections that are added one after the other stand in this order behind those before. -/
theorem foldl_add (m : Module) (parts : List FramedSection) :
    parts.foldl add m = { m with sections := m.sections ++ parts.map (·.content) } := by
  induction parts generalizing m with
  | nil => simp
  | cons p later ih => simp [ih, add]

/-- One step of the lenient decoder takes one section, whatever it leaves unread. -/
theorem outcome_absorb (offset : Nat) (m : Module) (frame : Frame) :
    (m.absorb offset frame).outcome =
      frame.decodeLeniently.map fun content => m.add ⟨frame, content⟩ := by
  have hreport : ∀ (content : Section) (unread : List UInt8),
      (do
        unless unread.isEmpty do
          Logged.report (.skipped content.kind unread.length offset)
        Logged.report (.decoded content.kind offset content.size)
        return { m with sections := m.sections ++ [content] } :
          Logged DecodeError Module).outcome = .ok (m.add ⟨frame, content⟩) := by
    intro content unread
    cases unread <;> rfl
  rw [absorb, Logged.outcome_bind, Frame.decodeLeniently, Frame.decode]
  cases (Section.ofPayload frame.id frame.payload).outcome with
  | error cause => rfl
  | ok p => exact hreport p.1 p.2

/-- **Lenient decoding** takes one section after the other from the stream. -/
theorem decode_eq (bytes : List UInt8) :
    decode bytes = (decodeStream Frame.decodeLeniently bytes).map ofStream := by
  have hstep := fun offset m frame (_ : True) => outcome_absorb offset m frame
  rw [decode, decodeLogged,
    outcome_traverse (fun _ => True) add hstep (fun _ _ _ => trivial) fun _ => trivial]
  simp only [foldl_add, List.nil_append]
  rfl

end Module

end WasmContract
