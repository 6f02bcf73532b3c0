import WasmContract.Proofs.Checked.Payload
import WasmContract.Proofs.Contract.Canonicalization
import WasmContract.Proofs.Module.Sections

/-!
# Checked programs

Decoding a module, reading and validating a contract, and writing an export section with checked
operations: shifts by less than the width of a word, subtractions that are not negative, slices and
first bytes that are there, and conversions that keep their value. The checked programs have the
results of the unchecked ones, on every input (`arithmetic_in_range`).
-/

namespace WasmContract

open Reader Leb128 Checked

/-! ### Traversals -/

section Traversal

variable {σ : Type} {step : Nat → σ → Frame → Logged DecodeError σ}
  {absorb : σ → Frame → Checked DecodeError σ}

/-- The frame of the next section. When it cannot be read, the error has the offset of the bytes
that remain of the input, and the first of these. -/
def nextSection (input remaining : List UInt8) : Checked ModuleError (Frame × List UInt8) := do
  let offset ← sub? input.length remaining.length
  let id ← remaining.head?
  (Frame.checkedReader remaining).adapt (.inSection id offset)

/-- Takes a section into account, with its offset in the input in case of an error. -/
def absorbAt (absorb : σ → Frame → Checked DecodeError σ) (input remaining : List UInt8) (state : σ)
    (frame : Frame) : Checked ModuleError σ := do
  let offset ← sub? input.length remaining.length
  (absorb state frame).adapt (.inSection frame.id offset)

/-- Reads the header of a module and takes its sections into account, one after the other. -/
def checkedTraverse (start : Header → Checked ModuleError σ)
    (absorb : σ → Frame → Checked DecodeError σ) (input : List UInt8) : Checked ModuleError σ := do
  let (header, body) ← (Header.reader.inRange input).adapt .inHeader
  let state ← start header
  loop (nextSection input) (absorbAt absorb input) state body

theorem outcome_visitSections_frame {frame : Frame} (h : frame.Intact) (offset : Nat) (state : σ)
    (rest : List UInt8) : (visitSections step offset state (frame.bytes ++ rest)).outcome =
      ((step offset state frame).outcome.mapError (.inSection frame.id offset)).bind fun state =>
        (visitSections step (offset + frame.bytes.length) state rest).outcome := by
  simp only [visitSections, Framing.ofBytes_append h, visitFrames, Logged.outcome_bind,
    Logged.outcome_mapError]
  cases (step offset state frame).outcome <;> rfl

/-- What remains is always an end of the input, so it is not longer, and the difference is the
offset. -/
theorem loop_eq_visitSections
    (h : ∀ offset state frame, absorb state frame = .ofExcept (step offset state frame).outcome)
    (front remaining : List UInt8) (state : σ) :
    loop (nextSection (front ++ remaining)) (absorbAt absorb (front ++ remaining)) state remaining =
      .ofExcept (visitSections step front.length state remaining).outcome := by
  induction remaining using Framing.induction generalizing front state with
  | nil => exact loop_nil
  | error b rest cause herror =>
    have hnext : nextSection (front ++ b :: rest) (b :: rest) =
        .ofExcept (.error (.inSection b front.length cause)) := by
      rw [nextSection, List.length_append, sub?_add, Checked.some_bind, List.head?_cons,
        Checked.some_bind, Frame.checkedReader_eq, inRange, herror]
      rfl
    rw [loop_error hnext, visitSections, Framing.ofBytes_of_error herror]
    rfl
  | frame f rest hf ih =>
    have hnext : nextSection (front ++ (f.bytes ++ rest)) (f.bytes ++ rest) =
        .ofExcept (.ok (f, rest)) := by
      obtain ⟨b, later, hbytes⟩ := List.exists_cons_of_ne_nil hf.bytes_ne_nil
      rw [nextSection, List.length_append, sub?_add, Checked.some_bind, hbytes, List.cons_append,
        List.head?_cons, Checked.some_bind, ← List.cons_append, ← hbytes, Frame.checkedReader_eq,
        inRange, hf rest]
      rfl
    rw [loop_frame hf.bytes_ne_nil hnext, outcome_visitSections_frame hf, ← ofExcept_bind, absorbAt,
      List.length_append, sub?_add, Checked.some_bind, h front.length, adapt_ofExcept]
    refine bind_congr fun state => ?_
    have hlater := ih (front ++ f.bytes) state
    rwa [List.append_assoc, List.length_append] at hlater

/-- **A traversal stays in range** if its start and its steps do. The header is at hand when the
start is made, so its bytes may be taken from the front of the input. -/
theorem checkedTraverse_eq {start : Header → σ} {checkedStart : Header → Checked ModuleError σ}
    (input : List UInt8)
    (hstart : Header.size ≤ input.length →
      ∀ header, checkedStart header = .ofExcept (.ok (start header)))
    (hstep : ∀ offset state frame,
      absorb state frame = .ofExcept (step offset state frame).outcome) :
    checkedTraverse checkedStart absorb input = .ofExcept (traverse start step input).outcome := by
  rw [checkedTraverse, traverse, Logged.outcome_bind, Logged.outcome_mapError,
    Logged.outcome_ofExcept, inRange, adapt_ofExcept]
  rcases Header.cases_reader input with
    ⟨cause, herror⟩ | ⟨header, front, body, rfl, hlength, hreads⟩
  · rw [herror]
    rfl
  · rw [hreads body]
    simp only [Except.ok_mapError, ok_bind, Except.ok_bind]
    rw [hstart (by rw [List.length_append, hlength]; exact Nat.le_add_right _ _), ok_bind,
      loop_eq_visitSections hstep, hlength]

end Traversal

/-! ### Writing -/

namespace Leb128

/-- The groups of an integer, lowest first. Each is masked, and then converted to a byte. -/
def encodeGroups? : (more : Nat) → UInt32 → Option (List UInt8)
  | 0, value => do
    let low ← narrow? UInt32.toUInt8 UInt8.toUInt32 (value &&& 0x7f)
    return [low]
  | more + 1, value => do
    let low ← narrow? UInt32.toUInt8 UInt8.toUInt32 (value &&& 0x7f)
    if value >>> 7 = 0 then return [low]
    else
      let others ← encodeGroups? more (value >>> 7)
      return (low ||| 0x80) :: others

/-- A masked group fits into a byte. -/
theorem narrow?_group (value : UInt32) :
    narrow? UInt32.toUInt8 UInt8.toUInt32 (value &&& 0x7f) = some (group value.toUInt8) := by
  have hmask : (value &&& 0x7f).toNat = value.toNat % 128 :=
    (UInt32.toNat_and ..).trans (Nat.and_two_pow_sub_one_eq_mod value.toNat 7)
  have hback : (value &&& 0x7f).toUInt8.toUInt32 = value &&& 0x7f := by
    rw [← UInt32.toNat_inj, UInt8.toNat_toUInt32, UInt32.toNat_toUInt8, hmask]
    omega
  rw [narrow?, if_pos hback, UInt32.toUInt8_and]
  rfl

/-- Every group of an integer is masked before it is converted, so none loses bits. -/
theorem encodeGroups?_eq (more : Nat) (value : UInt32) :
    encodeGroups? more value = some (encodeGroups more value) := by
  induction more generalizing value with
  | zero =>
    rw [encodeGroups?, narrow?_group]
    rfl
  | succ more ih =>
    rw [encodeGroups?, narrow?_group, encodeGroups, ih]
    split <;> rfl

end Leb128

namespace Exports

/-- Writes one entry. The length of its name is converted to a byte. -/
def checkedEncodeEntry (e : Export) : Checked DecodeError (List UInt8) := do
  let name := Text.Utf8.encode e.name
  if maxNameLength < name.length then
    throw (.exportBound .nameLength name.length maxNameLength)
  let length ← toUInt8? name.length
  let index ← encodeGroups? 4 e.index
  return length :: name ++ e.kind.code :: index

/-- The length of a name is compared with the limit before it is converted to a byte. -/
theorem checkedEncodeEntry_eq (e : Export) :
    checkedEncodeEntry e = .ofExcept (encodeEntry e) := by
  rw [checkedEncodeEntry, encodeEntry, encodeGroups?_eq]
  by_cases hlength : maxNameLength < (Text.Utf8.encode e.name).length
  · simp only [if_pos hlength]
    rfl
  · have hbyte : (Text.Utf8.encode e.name).length < 2 ^ 8 :=
      Nat.lt_of_le_of_lt (Nat.le_of_not_lt hlength) (by decide)
    simp only [if_neg hlength, toUInt8?_of_lt hbyte, Checked.some_bind]
    rfl

/-- Entries are written in range one after the other, up to the first that is refused. -/
theorem checkedMapM_eq (entries : List Export) :
    entries.mapM checkedEncodeEntry = .ofExcept (entries.mapM encodeEntry) := by
  induction entries with
  | nil => rfl
  | cons e later ih =>
    rw [List.mapM_cons, List.mapM_cons, checkedEncodeEntry_eq, ih]
    cases encodeEntry e with
    | error cause => rfl
    | ok first => cases later.mapM encodeEntry <;> rfl

/-- Writes the payload of an export section. The number of entries is converted to a byte. -/
def checkedEncodePayload (entries : List Export) : Checked DecodeError (List UInt8) := do
  if maxCount < entries.length then throw (.exportBound .count entries.length maxCount)
  let count ← toUInt8? entries.length
  let encoded ← entries.mapM checkedEncodeEntry
  return count :: encoded.flatten

/-- The number of entries is compared with the limit before it is converted to a byte. -/
theorem checkedEncodePayload_eq (entries : List Export) :
    checkedEncodePayload entries = .ofExcept (encodePayload entries) := by
  rw [checkedEncodePayload, encodePayload, checkedMapM_eq]
  by_cases hcount : maxCount < entries.length
  · simp only [if_pos hcount]
    rfl
  · have hbyte := Nat.lt_of_le_of_lt (Nat.le_of_not_lt hcount) (show maxCount < 2 ^ 8 by decide)
    simp only [if_neg hcount, toUInt8?_of_lt hbyte, Checked.some_bind]
    cases entries.mapM encodeEntry <;> rfl

/-- Writes an export section. The length of the payload is converted to 32 bits. -/
def checkedEncode (entries : List Export) : Checked DecodeError (List UInt8) := do
  let payload ← checkedEncodePayload entries
  let size ← toUInt32? payload.length
  let announced ← encodeGroups? 4 size
  return SectionKind.exports.code :: announced ++ payload

/-- The payload of entries within the limits is short enough for its length to be announced. -/
theorem checkedEncode_eq (entries : List Export) :
    checkedEncode entries = .ofExcept (encode entries) := by
  rw [checkedEncode, checkedEncodePayload_eq, encode]
  cases hpayload : encodePayload entries with
  | error e => rfl
  | ok payload =>
    obtain ⟨hlimits, rfl⟩ := encodePayload_eq_ok_iff.mp hpayload
    have hlength := length_encodePayload_lt hlimits
    simp only [ok_bind, toUInt32?_of_lt hlength, Checked.some_bind, encodeGroups?_eq]
    rfl

end Exports

/-! ### Modules -/

namespace Module

/-- Adds the section in a frame to a module. -/
def checkedAbsorb (m : Module) (frame : Frame) : Checked DecodeError Module := do
  let (content, _) ← Section.checkedOfPayload frame.id frame.payload
  return { m with sections := m.sections ++ [content] }

/-- A module takes a section in range. -/
theorem checkedAbsorb_eq (offset : Nat) (m : Module) (frame : Frame) :
    m.checkedAbsorb frame = .ofExcept (m.absorb offset frame).outcome := by
  rw [outcome_absorb, checkedAbsorb, Section.checkedOfPayload_eq, Frame.decodeLeniently,
    Frame.decode]
  cases (Section.ofPayload frame.id frame.payload).outcome <;> rfl

/-- Decodes a module. -/
def checkedDecode (bytes : List UInt8) : Checked ModuleError Module :=
  checkedTraverse (fun header => pure { header }) checkedAbsorb bytes

/-- Decoding a module stays in range. -/
theorem checkedDecode_eq (bytes : List UInt8) : checkedDecode bytes = .ofExcept (decode bytes) :=
  checkedTraverse_eq bytes (fun _ _ => rfl) checkedAbsorb_eq

end Module

/-! ### Contracts -/

namespace Contract

/-- Adds the entries of an export section. -/
def checkedAbsorbExports (c : Contract) (entries : List Export) : Checked DecodeError Contract := do
  let kept := Exports.keep c.exports entries
  if kept.isEmpty then return c
  let rebuilt ← Exports.checkedEncode kept
  return { c with exports := c.exports ++ kept }.emit rebuilt

theorem checkedAbsorbExports_eq (c : Contract) (entries : List Export) :
    c.checkedAbsorbExports entries = .ofExcept (c.absorbExports entries) := by
  rw [checkedAbsorbExports, absorbExports, Exports.checkedEncode_eq]
  split
  · rfl
  · cases Exports.encode (Exports.keep c.exports entries) <;> rfl

/-- Adds the section in a frame. Only the writing of an export section takes arithmetic. -/
def checkedAbsorb (c : Contract) (frame : Frame) : Checked DecodeError Contract := do
  let (content, unread) ← Section.checkedOfPayload frame.id frame.payload
  if unread.isEmpty then
    match content with
    | .exports entries => c.checkedAbsorbExports entries
    | _ => .ofExcept (c.absorbSection frame.bytes content).outcome
  else throw (.trailingBytes content.kind unread.length)

/-- A contract takes any section in range. -/
theorem checkedAbsorb_eq (c : Contract) (frame : Frame) :
    c.checkedAbsorb frame = .ofExcept (c.absorb frame).outcome := by
  rw [checkedAbsorb, absorb, Section.checkedOfPayload_eq, Logged.outcome_bind]
  cases (Section.ofPayload frame.id frame.payload).outcome with
  | error e => rfl
  | ok p =>
    obtain ⟨content, unread⟩ := p
    simp only [ok_bind, Except.ok_bind]
    by_cases hunread : unread.isEmpty
    · rw [if_pos hunread, if_pos hunread]
      cases content with
      | exports entries => exact checkedAbsorbExports_eq c entries
      | _ => rfl
    · rw [if_neg hunread, if_neg hunread]
      rfl

/-- Reads a module strictly. The header is copied from the front of the bytes. -/
def checkedRead (bytes : List UInt8) : Checked ModuleError Contract :=
  checkedTraverse (fun _ => do
    let opening ← take? Header.size bytes
    return { bytes := opening }) checkedAbsorb bytes

/-- Reading a contract stays in range; its first bytes are taken once the header has been read. -/
theorem checkedRead_eq (bytes : List UInt8) : checkedRead bytes = .ofExcept (read bytes) := by
  refine checkedTraverse_eq bytes (fun hsize header => ?_) fun _ => checkedAbsorb_eq
  rw [take?, if_pos hsize]
  rfl

/-- The type of the function with a given index. The index of a function that is not imported is
counted from the first that is defined. -/
def checkedFuncType (c : Contract) (index : UInt32) : Option (Option FuncType) := do
  let imported := c.importedFunctions
  let typeIndex ←
    match imported[index.toNat]? with
    | some typeIndex => some (some typeIndex)
    | none => (sub? index.toNat imported.length).map fun i => c.functions[i]?
  return typeIndex.bind fun i => c.types[i.toNat]?

/-- An index at which there is no imported function is not below their number. -/
theorem checkedFuncType_eq (c : Contract) (index : UInt32) :
    c.checkedFuncType index = some (c.funcType? index) := by
  rw [checkedFuncType, funcType?]
  cases himported : c.importedFunctions[index.toNat]? with
  | some typeIndex => rfl
  | none =>
    rw [sub?, if_pos (List.getElem?_eq_none_iff.mp himported)]
    rfl

/-- Checks that `main` is a function without parameters and results. -/
def checkedValidateMain (c : Contract) : Checked ValidationError Unit :=
  match c.find? .main with
  | none => throw (.exportMissing .main)
  | some main =>
    if main.kind ≠ .func then throw (.exportSignature .main (.notFunction main.kind))
    else do
      match ← c.checkedFuncType main.index with
      | none => throw (.exportSignature .main (.missingFunction main.index))
      | some type =>
        if type.Matches [] [] then pure ()
        else throw (.exportSignature .main (.functionType type))

/-- The rule for `main` stays in range. -/
theorem checkedValidateMain_eq (c : Contract) :
    c.checkedValidateMain = .ofExcept c.validateMain := by
  rw [checkedValidateMain, validateMain]
  cases c.find? .main with
  | none => rfl
  | some main =>
    dsimp only
    split
    · rfl
    · rw [checkedFuncType_eq, Checked.some_bind]
      cases c.funcType? main.index with
      | none => rfl
      | some type =>
        dsimp only
        split <;> rfl

/-- Decides whether a contract is valid. -/
def checkedValidate (c : Contract) (options : Options) : Checked ValidationError Unit := do
  if c.hasStart then throw .hasStart
  if c.hasCustom ∧ ¬options.allowCustom then throw .hasCustom
  .ofExcept c.validateExports
  c.checkedValidateMain
  .ofExcept c.validateMemory
  .ofExcept (c.imports.forM c.validateImport)

/-- Validation stays in range, since the rule for `main` is the only one that calculates. -/
theorem checkedValidate_eq (c : Contract) (options : Options) :
    c.checkedValidate options = .ofExcept (c.validate options) := by
  have hmain := checkedValidateMain_eq c
  rw [validate, outcome_validateLogged, checkedValidate, check, hmain]
  by_cases hstart : c.hasStart
  · simp only [if_pos hstart]
    rfl
  · simp only [if_neg hstart]
    by_cases hcustom : c.hasCustom ∧ ¬options.allowCustom
    · simp only [if_pos hcustom]
      rfl
    · simp only [if_neg hcustom, ofExcept_bind]
      rfl

end Contract

/-- **The arithmetic stays in range.** Decoding a module, reading a contract, validating it and
writing an export section do the same on every input when each operation is checked: no word is
shifted by its width or more, no slice or first byte is outside its bytes, no difference is
negative, and no number is converted to a type that does not hold it. -/
theorem arithmetic_in_range :
    (∀ bytes, Module.checkedDecode bytes = .ofExcept (Module.decode bytes)) ∧
      (∀ bytes, Contract.checkedRead bytes = .ofExcept (Contract.read bytes)) ∧
      (∀ (c : Contract) options, c.checkedValidate options = .ofExcept (c.validate options)) ∧
      ∀ entries, Exports.checkedEncode entries = .ofExcept (Exports.encode entries) :=
  ⟨Module.checkedDecode_eq, Contract.checkedRead_eq, Contract.checkedValidate_eq,
    Exports.checkedEncode_eq⟩

end WasmContract
