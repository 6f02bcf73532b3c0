import WasmContract.Proofs.Section.Entries
import WasmContract.Section.Payload

/-!
# Success and failure within sections

When the payloads of name sections and of custom sections are decoded. A payload that cannot be
decoded is at fault itself, whatever kind of section it belongs to
(`Section.ofBytes_of_ofPayload`).
-/

namespace WasmContract

/-- A stream that cannot be cut to its end is at fault itself. -/
theorem Framing.ofBytes_of_failure {bytes : List UInt8} {b : UInt8} {cause : DecodeError}
    (h : (Framing.ofBytes bytes).failure = some (b, cause)) : cause.OfBytes := by
  induction bytes using Framing.induction with
  | nil => simp at h
  | error b' rest cause' herror =>
    rw [Framing.ofBytes_of_error herror] at h
    cases h
    exact Frame.lawful_reader.cause herror
  | frame f rest hintact ih =>
    rw [Framing.ofBytes_append hintact] at h
    exact ih h

namespace NameSection

/-- Reporting bytes that are left over never fails. -/
theorem outcome_reportUnread (subsection : Frame) (unread : List UInt8) :
    (reportUnread subsection unread).outcome = .ok () := by
  unfold reportUnread
  split <;> rfl

/-- A subsection is read for what it holds, whatever it leaves unread. -/
theorem outcome_read {α : Type} (r : Reader α) (subsection : Frame) (update : α → NameSection) :
    (do
      let (a, unread) ← .ofExcept (r subsection.payload)
      reportUnread subsection unread
      return update a : Logged DecodeError NameSection).outcome =
      (r subsection.payload).map fun p => update p.1 := by
  rw [Logged.outcome_bind, Logged.outcome_ofExcept]
  cases r subsection.payload with
  | error e => rfl
  | ok p =>
    simp only [Except.ok_bind, Logged.outcome_bind, outcome_reportUnread, Logged.outcome_pure,
      Except.ok_map]

section Absorb

variable {names : NameSection} {subsection : Frame}

/-- A subsection of type 0 names the module, and replaces an earlier name. -/
theorem outcome_absorb_moduleName (h : subsection.id = 0) :
    (absorb names subsection).outcome = (Reader.name subsection.payload).map fun p =>
      { names with moduleName := some p.1 } := by
  rw [absorb, h]
  exact outcome_read Reader.name subsection fun moduleName =>
    { names with moduleName := some moduleName }

/-- A subsection of type 1 names functions, and replaces all earlier names of functions. -/
theorem outcome_absorb_functionNames (h : subsection.id = 1) :
    (absorb names subsection).outcome =
      (Reader.vec FunctionName.reader subsection.payload).map fun p =>
        { names with functionNames := p.1 } := by
  rw [absorb, h]
  exact outcome_read (Reader.vec FunctionName.reader) subsection fun functionNames =>
    { names with functionNames }

theorem outcome_absorb_other (hname : subsection.id ≠ 0) (hfunctions : subsection.id ≠ 1) :
    (absorb names subsection).outcome = .ok names := by
  unfold absorb
  split
  · exact absurd ‹_› hname
  · exact absurd ‹_› hfunctions
  · rfl

theorem ofBytes_of_absorb {e : DecodeError} (h : (absorb names subsection).outcome = .error e) :
    e.OfBytes := by
  by_cases hname : subsection.id = 0
  · rw [outcome_absorb_moduleName hname, Except.map_eq_error_iff] at h
    exact Reader.lawful_name.cause h
  · by_cases hfunctions : subsection.id = 1
    · rw [outcome_absorb_functionNames hfunctions, Except.map_eq_error_iff] at h
      exact (Reader.lawful_vec FunctionName.lawful_reader).cause h
    · rw [outcome_absorb_other hname hfunctions] at h
      cases h

end Absorb

theorem ofBytes_of_foldlM {names : NameSection} {subsections : List Frame} {e : DecodeError}
    (h : (subsections.foldlM absorb names).outcome = .error e) : e.OfBytes := by
  induction subsections generalizing names with
  | nil => cases h
  | cons subsection later ih =>
    rw [List.foldlM_cons, Logged.outcome_bind, Except.bind_eq_error_iff] at h
    rcases h with h | ⟨names', -, h⟩
    · exact ofBytes_of_absorb h
    · exact ih h

/-- A name section fails because of a subsection, or because of bytes that are none. -/
theorem ofBytes_of_ofPayload {payload : List UInt8} {e : DecodeError}
    (h : (ofPayload payload).outcome = .error e) : e.OfBytes := by
  rw [ofPayload, Logged.outcome_bind, Except.bind_eq_error_iff] at h
  rcases h with h | ⟨names, -, h⟩
  · exact ofBytes_of_foldlM h
  · split at h
    · rename_i b cause hfailure
      cases h
      exact Framing.ofBytes_of_failure hfailure
    · cases h

/-- A name section that is decoded is cut to its end, and all of its subsections are absorbed. -/
theorem outcome_ofPayload_eq_ok_iff {payload : List UInt8} {names : NameSection} :
    (ofPayload payload).outcome = .ok names ↔
      ∃ subsections, Framing.ofBytes payload = ⟨subsections, none⟩ ∧
        (subsections.foldlM absorb {}).outcome = .ok names := by
  rw [ofPayload, Logged.outcome_bind]
  constructor
  · intro h
    obtain ⟨found, hfound, hend⟩ := Except.bind_eq_ok_iff.mp h
    split at hend
    · cases hend
    · rename_i hfailure
      cases hend
      exact ⟨_, by rw [← hfailure], hfound⟩
  · rintro ⟨subsections, hframing, hfold⟩
    rw [hframing, hfold]
    rfl

end NameSection

/-- A custom section that is decoded holds names if it has the name for it, and else the bytes
behind its name. -/
theorem CustomSection.outcome_ofPayload_eq_ok_iff {payload : List UInt8} {c : CustomSection} :
    (CustomSection.ofPayload payload).outcome = .ok c ↔
      ∃ name content, Reader.name payload = .ok (name, content) ∧
        ((name = NameSection.sectionName ∧
            ∃ found, (NameSection.ofPayload content).outcome = .ok found ∧ c = names found) ∨
          (name ≠ NameSection.sectionName ∧ c = raw name content)) := by
  rw [CustomSection.ofPayload, Logged.outcome_bind, Logged.outcome_ofExcept,
    Except.bind_eq_ok_iff, Prod.exists]
  refine exists_congr fun name => exists_congr fun content => and_congr_right fun _ => ?_
  dsimp only
  by_cases hname : name = NameSection.sectionName
  · rw [if_pos hname, Logged.outcome_bind, Except.bind_eq_ok_iff]
    simp [hname, eq_comm]
  · rw [if_neg hname]
    simp [hname, eq_comm]

/-- A custom section fails because of its name or because of what is named in it. -/
theorem CustomSection.ofBytes_of_ofPayload {payload : List UInt8} {e : DecodeError}
    (h : (CustomSection.ofPayload payload).outcome = .error e) : e.OfBytes := by
  rw [CustomSection.ofPayload, Logged.outcome_bind, Except.bind_eq_error_iff] at h
  rcases h with h | ⟨⟨name, content⟩, -, h⟩
  · exact Reader.lawful_name.cause h
  · dsimp only at h
    split at h
    · rw [Logged.outcome_bind, Except.bind_eq_error_iff] at h
      rcases h with h | ⟨names, -, h⟩
      · exact NameSection.ofBytes_of_ofPayload h
      · cases h
    · cases h

namespace Section

/-- The reader of every kind of section that has one is lawful. -/
theorem lawful_of_reader? {kind : SectionKind} {reader : Reader Section}
    (h : reader? kind = some reader) : reader.Lawful := by
  cases kind <;> simp only [reader?, reduceCtorEq, Option.some.injEq] at h <;> subst h
  · exact (Reader.lawful_vec FuncType.lawful_reader).map _
  · exact (Reader.lawful_vec Import.lawful_reader).map _
  · exact (Reader.lawful_vec Leb128.lawful_u32).map _
  · exact (Reader.lawful_vec TableType.lawful_reader).map _
  · exact (Reader.lawful_vec MemoryType.lawful_reader).map _
  · exact (Reader.lawful_vec GlobalVariable.lawful_reader).map _
  · exact (Reader.lawful_vec Export.lawful_reader).map _
  · exact Leb128.lawful_u32.map _
  · exact (Reader.lawful_vec ElementSegment.lawful_reader).map _
  · exact (Reader.lawful_vec FunctionBody.lawful_reader).map _
  · exact (Reader.lawful_vec DataSegment.lawful_reader).map _

/-- **A payload that cannot be decoded is at fault itself**, whatever the identifier. -/
theorem ofBytes_of_ofPayload {id : UInt8} {payload : List UInt8} {e : DecodeError}
    (h : (ofPayload id payload).outcome = .error e) : e.OfBytes := by
  unfold ofPayload at h
  split at h
  · cases h
    trivial
  · split at h
    · rename_i reader hreader
      exact (lawful_of_reader? hreader).cause h
    · rw [Logged.outcome_bind, Except.bind_eq_error_iff] at h
      rcases h with h | ⟨content, -, h⟩
      · exact CustomSection.ofBytes_of_ofPayload h
      · cases h

end Section

/-! ### Sections in frames -/

namespace Frame

/-- The section in a frame, with the bytes of the payload that it leaves unread. -/
def decode (frame : Frame) : Except DecodeError (Section × List UInt8) :=
  (Section.ofPayload frame.id frame.payload).outcome

/-- The section in a frame, whether or not it leaves bytes unread. -/
def decodeLeniently (frame : Frame) : Except DecodeError Section := frame.decode.map Prod.fst

/-- The section in a frame, which must leave no bytes unread. -/
def decodeStrictly (frame : Frame) : Except DecodeError Section :=
  frame.decode.bind fun (content, unread) =>
    if unread = [] then .ok content else .error (.trailingBytes content.kind unread.length)

/-- A custom section leaves nothing unread. -/
theorem decode_of_id_custom {frame : Frame} (h : frame.id = SectionKind.custom.code) :
    frame.decode = (CustomSection.ofPayload frame.payload).outcome.map fun content =>
      (Section.custom content, []) := by
  rw [decode, h]
  change ((CustomSection.ofPayload frame.payload).bind fun content =>
    pure (Section.custom content, [])).outcome = _
  exact Logged.outcome_bind ..

end Frame

end WasmContract
