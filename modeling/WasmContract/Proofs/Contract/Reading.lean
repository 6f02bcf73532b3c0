import WasmContract.Contract.Basic
import WasmContract.Proofs.Contract.Canonical

/-!
# Contracts in closed form

The strict reader collects the parts of a contract while it passes through a stream. What it has
collected in the end depends on the sections of the module alone (`Contract.read_eq`): the lists are
those of all sections of one kind joined, the exports are selected from all export entries of the
module, and the canonical bytes are the header with what remains of the sections.

Along the way the exports kept so far are required exports of different names. So the export
sections that are written anew are within the limits, and no step fails for another reason than the
strict decoding of a frame (`Contract.outcome_absorb`).
-/

namespace WasmContract

namespace Contract

/-- The contract of a module, with the given canonical bytes. -/
def ofModule (m : Module) (bytes : List UInt8) : Contract where
  types := m.entries Section.types?
  imports := m.entries Section.imports?
  functions := m.entries Section.functions?
  exports := Exports.select [] (m.entries Section.exports?)
  hasStart := m.Has .start
  hasCustom := m.Has .custom
  bytes

/-- Adds a section in its frame. -/
def add (c : Contract) (p : FramedSection) : Contract where
  types := c.types ++ p.content.entries Section.types?
  imports := c.imports ++ p.content.entries Section.imports?
  functions := c.functions ++ p.content.entries Section.functions?
  exports := c.exports ++ p.content.newExports c.exports
  hasStart := c.hasStart || p.content.kind = .start
  hasCustom := c.hasCustom || p.content.kind = .custom
  bytes := c.bytes ++ FramedSection.join (p.remainder c.exports).toList

/-! ### One step -/

variable {c : Contract}

/-- Entries to be kept are within the limits of the encoder, so an export section is always added.
-/
theorem absorbExports_eq (h : Exports.Kept c.exports) (frame : Frame) (entries : List Export) :
    c.absorbExports entries = .ok (c.add ⟨frame, .exports entries⟩) := by
  let p : FramedSection := ⟨frame, .exports entries⟩
  have hadd : c.add p = { c with exports := c.exports ++ Exports.select c.exports entries }.emit
      (FramedSection.join (p.remainder c.exports).toList) := by
    simp [p, add, emit, Section.newExports, Section.entries, Section.exports?, Section.types?,
      Section.imports?, Section.functions?, Section.kind]
  rw [hadd, absorbExports, Exports.keep_eq_select h, FramedSection.remainder, Section.remainder]
  -- an export section of which nothing is kept is not written at all
  by_cases hnew : Exports.select c.exports entries = []
  · simp [hnew, FramedSection.join, emit, pure, Except.pure]
  · have hencode := Exports.encode_eq_ok (h.select entries).portable.toWithinLimits
    simp [hnew, hencode, FramedSection.join, Section.kind, Section.frame, bind, Except.bind, pure,
      Except.pure]

theorem outcome_absorbSection (h : Exports.Kept c.exports) (p : FramedSection) :
    (c.absorbSection p.frame.bytes p.content).outcome = .ok (c.add p) := by
  obtain ⟨frame, content⟩ := p
  cases content with
  | exports entries => exact absorbExports_eq h frame entries
  | _ =>
    simp [absorbSection, emit, add, FramedSection.remainder, Section.remainder, FramedSection.join,
      Section.newExports, Section.entries, Section.exports?, Section.types?, Section.imports?,
      Section.functions?, Section.kind, Exports.select]

/-- **One step of the strict reader** decodes a frame strictly and adds its section; the section of
exports that is written anew never exceeds a limit. -/
theorem outcome_absorb (h : Exports.Kept c.exports) (frame : Frame) :
    (c.absorb frame).outcome = frame.decodeStrictly.map fun content => c.add ⟨frame, content⟩ := by
  rw [absorb, Logged.outcome_bind, Frame.decodeStrictly, Frame.decode]
  cases (Section.ofPayload frame.id frame.payload).outcome with
  | error cause => rfl
  | ok p =>
    obtain ⟨content, unread⟩ := p
    simp only [Except.ok_bind]
    cases unread with
    | nil => exact outcome_absorbSection h ⟨frame, content⟩
    | cons b left => simp

/-- The exports of a contract remain required ones of different names. -/
theorem kept_add (h : Exports.Kept c.exports) (p : FramedSection) :
    Exports.Kept (c.add p).exports :=
  h.append_select _

/-! ### A whole stream -/

/-- Adding sections one after the other collects the entries of all of them in each list. -/
theorem foldl_add (c : Contract) (parts : List FramedSection) :
    parts.foldl add c =
      let m : Module := { sections := parts.map (·.content) }
      { types := c.types ++ m.entries Section.types?
        imports := c.imports ++ m.entries Section.imports?
        functions := c.functions ++ m.entries Section.functions?
        exports := c.exports ++ Exports.select c.exports (m.entries Section.exports?)
        hasStart := c.hasStart || m.Has .start
        hasCustom := c.hasCustom || m.Has .custom
        bytes := c.bytes ++
          FramedSection.join (FramedSection.remainders c.exports parts).reduceOption } := by
  induction parts generalizing c with
  | nil => simp [Module.entries, Module.Has, FramedSection.join, FramedSection.remainders,
      Exports.select]
  | cons p later ih =>
    rw [List.foldl_cons, ih]
    simp [add, Module.entries, Module.Has, FramedSection.join, FramedSection.remainders,
      reduceOption_cons, Exports.select_append, Section.newExports, Bool.or_assoc]

/-- **Strict reading in closed form.** -/
theorem read_eq (bytes : List UInt8) :
    read bytes = (decodeStream Frame.decodeStrictly bytes).map fun p =>
      ofModule (.ofStream p)
        (bytes.take Header.size ++ FramedSection.join (FramedSection.canonical p.2)) := by
  have hstep := fun (_ : Nat) (c : Contract) frame (h : Exports.Kept c.exports) =>
    outcome_absorb h frame
  rw [read, readLogged, outcome_traverse (fun c : Contract => Exports.Kept c.exports) add hstep
    (fun _ p h => kept_add h p) fun _ => Exports.Kept.nil]
  simp only [foldl_add, List.nil_append, Bool.false_or]
  rfl

/-- Strict reading succeeds on the streams that are used up, with the contract of their module. -/
theorem read_eq_ok_iff {bytes : List UInt8} : read bytes = .ok c ↔
    ∃ stream, ExactStream bytes stream ∧ c = ofModule (.ofStream stream)
      (bytes.take Header.size ++ FramedSection.join (FramedSection.canonical stream.2)) := by
  rw [read_eq, Except.map_eq_ok_iff]
  constructor
  · rintro ⟨stream, h, rfl⟩
    exact ⟨stream, decodeStream_decodeStrictly_eq_ok_iff.mp h, rfl⟩
  · rintro ⟨stream, h, rfl⟩
    exact ⟨stream, decodeStream_decodeStrictly_eq_ok_iff.mpr h, rfl⟩

/-- A contract that was read is the contract of the module that the lenient decoder makes. -/
theorem eq_ofModule_of_read {bytes : List UInt8} (h : read bytes = .ok c) :
    ∃ m, Module.decode bytes = .ok m ∧ c = ofModule m c.bytes := by
  obtain ⟨stream, hstream, rfl⟩ := read_eq_ok_iff.mp h
  exact ⟨.ofStream stream, hstream.decode_eq_ok, rfl⟩

end Contract

end WasmContract
