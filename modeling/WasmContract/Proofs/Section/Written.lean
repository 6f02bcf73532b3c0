import WasmContract.Proofs.Section.ReadBack

/-!
# Written sections

The payload that is written of a well-formed section is decoded to this section, and nothing of it
is passed over: no byte of a section is left unread, and none of a subsection either
(`Section.yields_ofPayload`).
-/

namespace WasmContract

open Reader

/-! ### Computations with nothing to warn of -/

namespace Logged

variable {ε ε' α β : Type}

/-- The computation ends in `a`, and no warning is among its records. -/
structure Yields (x : Logged ε α) (a : α) : Prop where
  /-- The computation ends in `a`. -/
  outcome : x.outcome = .ok a
  /-- No record is a warning. -/
  level : ∀ r ∈ x.records, r.level ≠ .warn

namespace Yields

protected theorem pure (a : α) : (pure a : Logged ε α).Yields a := ⟨rfl, nofun⟩

protected theorem ofExcept {result : Except ε α} {a : α} (h : result = .ok a) :
    (ofExcept result).Yields a := ⟨h, nofun⟩

protected theorem report {r : Record} (h : r.level ≠ .warn) :
    (report r : Logged ε Unit).Yields () :=
  ⟨rfl, List.forall_mem_singleton.mpr h⟩

/-- There is nothing to warn of in a row of computations if there is nothing in each. -/
protected theorem bind {x : Logged ε α} {f : α → Logged ε β} {a : α} {b : β} (h : x.Yields a)
    (hf : (f a).Yields b) : (x >>= f).Yields b where
  outcome := by rw [outcome_bind, h.outcome, Except.ok_bind, hf.outcome]
  level := by
    rw [records_bind_of_ok h.outcome]
    exact List.forall_mem_append.mpr ⟨h.level, hf.level⟩

protected theorem mapError {x : Logged ε α} {a : α} (h : x.Yields a) (f : ε → ε') :
    (x.mapError f).Yields a where
  outcome := by rw [outcome_mapError, h.outcome, Except.ok_mapError]
  level := h.level

end Yields

end Logged

/-! ### Names -/

/-- The frame that is written around a payload. -/
def Frame.written (id : UInt8) (payload : List UInt8) : Frame where
  id := id
  payload := payload
  bytes := Writer.frame id payload

namespace NameSection

/-- The subsections that are written of a name section. -/
def subsections (n : NameSection) : List Frame :=
  (n.moduleName.toList.map fun name => .written 0 (Writer.name name)) ++
    if n.functionNames.isEmpty then []
    else [.written 1 (Writer.vec FunctionName.encode n.functionNames)]

theorem encode_eq_flatMap (n : NameSection) : n.encode = n.subsections.flatMap Frame.bytes := by
  obtain ⟨moduleName, functionNames⟩ := n
  cases moduleName <;> cases functionNames <;> simp [encode, subsections, Frame.written]

variable {n : NameSection}

theorem exists_of_mem_subsections {f : Frame} (hf : f ∈ n.subsections) :
    ∃ id payload, f = .written id payload ∧ (id = 0 ∨ id = 1) := by
  rcases List.mem_append.mp hf with hf | hf
  · obtain ⟨name, -, rfl⟩ := List.mem_map.mp hf
    exact ⟨0, _, rfl, .inl rfl⟩
  · split at hf
    · cases hf
    · exact ⟨1, _, List.mem_singleton.mp hf, .inr rfl⟩

/-- Each subsection is shorter than the section, so its size can be announced. -/
theorem length_payload_lt {f : Frame} (hf : f ∈ n.subsections) (h : n.encode.length < 2 ^ 32) :
    f.payload.length < 2 ^ 32 := by
  -- the section is longer than any of its subsections
  obtain ⟨id, payload, rfl, -⟩ := exists_of_mem_subsections hf
  have hpart : (Writer.frame id payload).length ≤ n.encode.length := by
    rw [encode_eq_flatMap]
    exact length_le_length_flatMap Frame.bytes hf
  rw [Writer.frame, Writer.sized, List.length_cons, List.length_append] at hpart
  change payload.length < 2 ^ 32
  omega

/-- The subsections that are written can be cut out again. -/
theorem intact_of_mem_subsections {f : Frame} (hf : f ∈ n.subsections)
    (h : n.encode.length < 2 ^ 32) : f.Intact := by
  have hpayload := length_payload_lt hf h
  obtain ⟨id, payload, rfl, hid⟩ := exists_of_mem_subsections hf
  refine Frame.intact_frame ?_ hpayload
  rcases hid with rfl | rfl <;> decide

/-- The name of the module is read back from its subsection, with nothing left over. -/
theorem yields_absorb_moduleName (names : NameSection) {text : String}
    (h : (Writer.name text).length < 2 ^ 32) :
    (absorb names (.written 0 (Writer.name text))).Yields
      { names with moduleName := some text } := by
  have hread := readsBack_name trivial h []
  rw [List.append_nil] at hread
  exact Logged.Yields.bind (.ofExcept hread) (.bind (.pure ()) (.pure _))

/-- The names of functions are read back from their subsection, with nothing left over. -/
theorem yields_absorb_functionNames (names : NameSection) {entries : List FunctionName}
    (h : (Writer.vec FunctionName.encode entries).length < 2 ^ 32) :
    (absorb names (.written 1 (Writer.vec FunctionName.encode entries))).Yields
      { names with functionNames := entries } := by
  have hread := FunctionName.readsBack.vec ⟨_, rfl⟩ (fun _ _ => trivial) h []
  rw [List.append_nil] at hread
  exact Logged.Yields.bind (.ofExcept hread) (.bind (.pure ()) (.pure _))

/-- What is written of a name section is read back from its subsections one by one: at most one of
each type is written. -/
theorem yields_foldlM (h : n.encode.length < 2 ^ 32) :
    (n.subsections.foldlM absorb {}).Yields n := by
  have hpayload := fun f hf => length_payload_lt (f := f) (n := n) hf h
  obtain ⟨moduleName, functionNames⟩ := n
  -- each subsection that is there adds its own part to the names read so far
  cases moduleName with
  | none =>
    cases functionNames with
    | nil => exact .pure _
    | cons f others =>
      exact (yields_absorb_functionNames _ (hpayload _ (.head _))).bind (.pure _)
  | some text =>
    refine (yields_absorb_moduleName _ (hpayload _ (.head _))).bind ?_
    cases functionNames with
    | nil => exact .pure _
    | cons f others =>
      exact (yields_absorb_functionNames _ (hpayload _ (.tail _ (.head _)))).bind (.pure _)

/-- **A written name section** is read back with nothing to warn of. -/
theorem yields_ofPayload (h : n.encode.length < 2 ^ 32) : (ofPayload n.encode).Yields n := by
  have hcut := Framing.ofBytes_join (fun f hf => intact_of_mem_subsections (n := n) hf h) []
  rw [List.append_nil, ← encode_eq_flatMap, Framing.ofBytes_nil, List.append_nil] at hcut
  rw [ofPayload, hcut]
  exact (yields_foldlM h).bind (.pure n)

end NameSection

/-- A well-formed custom section is read back with nothing to warn of: it has the name for name
sections just if it has names. -/
theorem CustomSection.yields_ofPayload {c : CustomSection} (hc : c.WellFormed)
    (h : c.encode.length < 2 ^ 32) : (CustomSection.ofPayload c.encode).Yields c := by
  unfold encode at h ⊢
  rw [List.length_append] at h
  have hname := readsBack_name (a := c.name) trivial (by omega)
  refine .bind (.ofExcept (hname _)) ?_
  cases c with
  | names n =>
    dsimp only [CustomSection.name] at h ⊢
    rw [if_pos rfl]
    exact (NameSection.yields_ofPayload (by omega)).bind (.pure _)
  | raw name content =>
    dsimp only [CustomSection.name]
    rw [if_neg hc]
    exact .pure _

/-! ### Sections of all kinds -/

namespace Section

variable {s : Section}

/-- A payload that a reader reads back is decoded with nothing left over. -/
theorem yields_of_reads {r : Reader Section} (hr : reader? s.kind = some r)
    (h : r.Reads s.encodePayload s) : (ofPayload s.kind.code s.encodePayload).Yields (s, []) := by
  rw [ofPayload, SectionKind.ofCode?_eq_some_iff.mpr rfl]
  dsimp only
  rw [hr]
  have hread := h []
  rw [List.append_nil] at hread
  exact .ofExcept hread

/-- **A written payload** is decoded to the section, with nothing left over. -/
theorem yields_ofPayload (hs : s.WellFormed) (h : s.Fits) :
    (ofPayload s.kind.code s.encodePayload).Yields (s, []) := by
  cases s with
  | custom content => exact (CustomSection.yields_ofPayload hs h).bind (.pure _)
  | types entries => exact yields_of_reads rfl ((FuncType.readsBack.vec ⟨_, rfl⟩ hs h).map _)
  | imports entries => exact yields_of_reads rfl ((Import.readsBack.vec ⟨_, rfl⟩ hs h).map _)
  | functions entries =>
    exact yields_of_reads rfl ((readsBack_u32.vec ⟨_, rfl⟩ (fun _ _ => trivial) h).map _)
  | tables entries => exact yields_of_reads rfl ((TableType.readsBack.vec ⟨_, rfl⟩ hs h).map _)
  | memories entries => exact yields_of_reads rfl ((MemoryType.readsBack.vec ⟨_, rfl⟩ hs h).map _)
  | globals entries =>
    exact yields_of_reads rfl ((GlobalVariable.readsBack.vec ⟨_, rfl⟩ hs h).map _)
  | exports entries =>
    exact yields_of_reads rfl ((Export.readsBack.vec ⟨_, rfl⟩ (fun _ _ => trivial) h).map _)
  | start function => exact yields_of_reads rfl ((Leb128.reads_u32_encode function).map _)
  | elements entries =>
    exact yields_of_reads rfl ((ElementSegment.readsBack.vec ⟨_, rfl⟩ hs h).map _)
  | bodies entries =>
    exact yields_of_reads rfl ((FunctionBody.readsBack.vec ⟨_, rfl⟩ (fun _ _ => trivial) h).map _)
  | data entries => exact yields_of_reads rfl ((DataSegment.readsBack.vec ⟨_, rfl⟩ hs h).map _)

end Section

end WasmContract
