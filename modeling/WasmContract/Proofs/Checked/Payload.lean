import WasmContract.Proofs.Checked.Section

/-!
# Checked decoding of payloads

The decoders of frames, name sections and payloads with checked operations. The subsections of a
name section are taken from the front of the bytes that remain, as long as any do
(`Checked.loop`). A step that makes no progress counts as out of range, so the equations say as
well that every step does.
-/

namespace WasmContract

open Reader Leb128 Checked

/-! ### Frames -/

/-- Reads one frame with the slice that it was read from. -/
def Frame.checkedReader : CheckedReader Frame := do
  let ((id, payload), bytes) ← checkedCaptured do
    let id ← checkedU7
    let payload ← checkedSized
    return (id, payload)
  return { id, payload, bytes }

/-- The slice of a frame lies within the input, whatever stands in it. -/
@[simp] theorem Frame.checkedReader_eq : checkedReader = reader.inRange := by
  have hcontents := checkedCaptured_inRange (r := do
    let id ← u7
    let payload ← sized
    return (id, payload)) (lawful_u7.bind fun _ => lawful_sized.bind fun _ => .pure _)
  simp only [inRange_bind, inRange_pure] at hcontents
  simp only [checkedReader, reader, checkedU7_eq, checkedSized_eq, hcontents, inRange_bind,
    inRange_pure]

namespace Checked

variable {σ ε ε' α : Type}

/-- Takes items from the front of the bytes that remain, each with the state reached so far, as long
as any bytes remain. A step that leaves as many as before has no result, since it would be taken
again for ever. -/
def loop (next : List UInt8 → Checked ε (Frame × List UInt8))
    (absorb : List UInt8 → σ → Frame → Checked ε σ) (state : σ) (remaining : List UInt8) :
    Checked ε σ :=
  if remaining.isEmpty then pure state
  else do
    let (frame, rest) ← next remaining
    let state ← absorb remaining state frame
    if rest.length < remaining.length then loop next absorb state rest
    else liftM (none : Option σ)
termination_by remaining.length

variable {next : List UInt8 → Checked ε (Frame × List UInt8)}
  {absorb : List UInt8 → σ → Frame → Checked ε σ} {state : σ} {rest : List UInt8} {frame : Frame}

theorem loop_nil : loop next absorb state [] = pure state := by
  rw [loop]
  rfl

theorem loop_error {b : UInt8} {e : ε} (h : next (b :: rest) = .ofExcept (.error e)) :
    loop next absorb state (b :: rest) = .ofExcept (.error e) := by
  rw [loop, h]
  rfl

/-- A loop goes on behind a frame, which takes bytes and so makes progress. -/
theorem loop_frame (hbytes : frame.bytes ≠ [])
    (h : next (frame.bytes ++ rest) = .ofExcept (.ok (frame, rest))) :
    loop next absorb state (frame.bytes ++ rest) =
      absorb (frame.bytes ++ rest) state frame >>= fun state => loop next absorb state rest := by
  have hless : rest.length < (frame.bytes ++ rest).length := by
    have := List.length_pos_iff.mpr hbytes
    rw [List.length_append]
    omega
  rw [loop, if_neg (by simp [hbytes]), h]
  simp only [ok_bind, if_pos hless]

theorem ofExcept_bind (x : Except ε σ) (f : σ → Except ε α) :
    (ofExcept x >>= fun s => ofExcept (f s)) = ofExcept (x.bind f) := by
  cases x <;> rfl

theorem adapt_ofExcept (g : ε → ε') (x : Except ε α) :
    ExceptT.adapt g (ofExcept x) = ofExcept (x.mapError g) := by
  cases x <;> rfl

end Checked

/-! ### Payloads -/

namespace NameSection

/-- Takes one subsection into account. -/
def checkedAbsorb (names : NameSection) (subsection : Frame) : Checked DecodeError NameSection :=
  match subsection.id with
  | 0 => do
    let (moduleName, _) ← checkedName subsection.payload
    return { names with moduleName := some moduleName }
  | 1 => do
    let (functionNames, _) ← checkedVec FunctionName.checkedReader subsection.payload
    return { names with functionNames }
  | _ => return names

/-- No subsection takes an operation out of range, whatever its identifier. -/
theorem checkedAbsorb_eq (names : NameSection) (subsection : Frame) :
    checkedAbsorb names subsection = .ofExcept (absorb names subsection).outcome := by
  by_cases hname : subsection.id = 0
  · rw [outcome_absorb_moduleName hname, checkedAbsorb, hname, checkedName_eq]
    simp only [inRange]
    cases Reader.name subsection.payload <;> rfl
  · by_cases hfunctions : subsection.id = 1
    · rw [outcome_absorb_functionNames hfunctions, checkedAbsorb, hfunctions,
        FunctionName.checkedReader_eq, checkedVec_inRange]
      simp only [inRange]
      cases vec FunctionName.reader subsection.payload <;> rfl
    · rw [outcome_absorb_other hname hfunctions]
      unfold checkedAbsorb
      split
      · exact absurd ‹_› hname
      · exact absurd ‹_› hfunctions
      · rfl

/-- Reads the payload of a name section. -/
def checkedOfPayload (payload : List UInt8) : Checked DecodeError NameSection :=
  loop Frame.checkedReader (fun _ => checkedAbsorb) {} payload

/-- Reads subsections when others have been read before. -/
def resume (names : NameSection) (payload : List UInt8) : Logged DecodeError NameSection := do
  let subsections := Framing.ofBytes payload
  let names ← subsections.frames.foldlM absorb names
  match subsections.failure with
  | some (_, cause) => .fail cause
  | none => return names

/-- Going on with a frame in front takes that frame into account first. -/
theorem outcome_resume_frame {frame : Frame} (h : frame.Intact) (names : NameSection)
    (rest : List UInt8) : (resume names (frame.bytes ++ rest)).outcome =
      (absorb names frame).outcome.bind fun names => (resume names rest).outcome := by
  simp only [resume, Framing.ofBytes_append h, List.foldlM_cons, Logged.outcome_bind]
  cases (absorb names frame).outcome <;> rfl

/-- Taking subsections from the front comes to the same as cutting the payload into frames first.
The induction is along these cuts. -/
theorem loop_eq_resume (names : NameSection) (payload : List UInt8) :
    loop Frame.checkedReader (fun _ => checkedAbsorb) names payload =
      .ofExcept (resume names payload).outcome := by
  rw [Frame.checkedReader_eq]
  induction payload using Framing.induction generalizing names with
  | nil => exact loop_nil
  | error b rest cause herror =>
    rw [loop_error (congrArg Checked.ofExcept herror), resume, Framing.ofBytes_of_error herror]
    rfl
  | frame f rest hf ih =>
    rw [loop_frame hf.bytes_ne_nil (congrArg Checked.ofExcept (hf rest)), outcome_resume_frame hf,
      checkedAbsorb_eq, ← ofExcept_bind]
    exact bind_congr fun names => ih names

/-- The payload of a name section is read in range. -/
theorem checkedOfPayload_eq (payload : List UInt8) :
    checkedOfPayload payload = .ofExcept (ofPayload payload).outcome :=
  loop_eq_resume {} payload

end NameSection

/-- Decodes the payload of a custom section; nothing is left of uninterpreted content. -/
def CustomSection.checkedOfPayload (payload : List UInt8) :
    Checked DecodeError (CustomSection × List UInt8) := do
  let (name, content) ← checkedName payload
  if name = NameSection.sectionName then
    let names ← NameSection.checkedOfPayload content
    return (.names names, [])
  else
    let unread ← drop? content.length content
    return (.raw name content, unread)

/-- A custom section is read in range, and its uninterpreted content is taken as a whole. -/
theorem CustomSection.checkedOfPayload_eq (payload : List UInt8) :
    checkedOfPayload payload =
      .ofExcept ((CustomSection.ofPayload payload).outcome.map fun c => (c, [])) := by
  rw [checkedOfPayload, checkedName_eq, CustomSection.ofPayload, Logged.outcome_bind,
    Logged.outcome_ofExcept]
  simp only [inRange]
  cases Reader.name payload with
  | error e => rfl
  | ok p =>
    obtain ⟨name, content⟩ := p
    simp only [ok_bind, Except.ok_bind]
    by_cases hname : name = NameSection.sectionName
    · rw [if_pos hname, if_pos hname, NameSection.checkedOfPayload_eq, Logged.outcome_bind]
      cases (NameSection.ofPayload content).outcome <;> rfl
    · have hdrop := drop?_append content []
      rw [List.append_nil] at hdrop
      rw [if_neg hname, if_neg hname, hdrop]
      rfl

namespace Section

/-- Reads the content of a section of a given kind; a custom section has no reader. -/
def checkedReader? : SectionKind → Option (CheckedReader Section)
  | .custom => none
  | .types => some (.types <$> checkedVec FuncType.checkedReader)
  | .imports => some (.imports <$> checkedVec Import.checkedReader)
  | .functions => some (.functions <$> checkedVec checkedU32)
  | .tables => some (.tables <$> checkedVec TableType.checkedReader)
  | .memories => some (.memories <$> checkedVec MemoryType.checkedReader)
  | .globals => some (.globals <$> checkedVec GlobalVariable.checkedReader)
  | .exports => some (.exports <$> checkedVec Export.checkedReader)
  | .start => some (.start <$> checkedU32)
  | .elements => some (.elements <$> checkedVec ElementSegment.checkedReader)
  | .bodies => some (.bodies <$> checkedVec FunctionBody.checkedReader)
  | .data => some (.data <$> checkedVec DataSegment.checkedReader)

theorem checkedReader?_eq (kind : SectionKind) :
    checkedReader? kind = (reader? kind).map inRange := by
  cases kind <;> simp [checkedReader?, reader?]

/-- Decodes the payload of a section, and gives the section with the bytes left over. -/
def checkedOfPayload (id : UInt8) (payload : List UInt8) :
    Checked DecodeError (Section × List UInt8) :=
  match SectionKind.ofCode? id.toNat with
  | none => throw (.invalidSectionId id)
  | some kind =>
    match checkedReader? kind with
    | some reader => reader payload
    | none => do
      let (content, unread) ← CustomSection.checkedOfPayload payload
      return (.custom content, unread)

/-- **Payloads are decoded in range**, for identifiers of sections and for all others. -/
theorem checkedOfPayload_eq (id : UInt8) (payload : List UInt8) :
    checkedOfPayload id payload = .ofExcept (ofPayload id payload).outcome := by
  rw [checkedOfPayload, ofPayload]
  cases SectionKind.ofCode? id.toNat with
  | none => rfl
  | some kind =>
    simp only [checkedReader?_eq]
    cases reader? kind with
    | some reader => rfl
    | none =>
      simp only [Option.map_none, CustomSection.checkedOfPayload_eq, Logged.outcome_bind]
      cases (CustomSection.ofPayload payload).outcome <;> rfl

end Section

end WasmContract
