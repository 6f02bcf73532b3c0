import WasmContract.Proofs.Module.Decode
import WasmContract.Proofs.Reader.Budget

/-!
# The size of decoded modules

A module weighs as much as the entries of its lists at all levels, the bytes that it keeps as they
were found, and the characters of its texts. All of this is paid for with bytes of the stream, so a
decoded module is never larger than its bytes (`weight_le_length`), and numbers that are announced
have no part in it.
-/

namespace WasmContract

open Reader

/-! ### Weights -/

/-- The types that a function type lists. -/
def FuncType.weight (t : FuncType) : Nat := t.params.length + t.results.length

/-- The characters of the names of an import. -/
def Import.weight (i : Import) : Nat := i.moduleName.length + i.fieldName.length

/-- The characters of the name of an export. -/
def Export.weight (e : Export) : Nat := e.name.length

/-- The bytes of the initialiser of a variable. -/
def GlobalVariable.weight (g : GlobalVariable) : Nat := g.init.raw.length

/-- The bytes of the offset of a segment, and its functions. -/
def ElementSegment.weight (e : ElementSegment) : Nat := e.offset.raw.length + e.functions.length

/-- The groups of local variables of a function, and the bytes of its code. -/
def FunctionBody.weight (b : FunctionBody) : Nat := b.locals.length + b.code.length

/-- The bytes of the offset of a segment, and its data. -/
def DataSegment.weight (d : DataSegment) : Nat := d.offset.raw.length + d.data.length

/-- The characters of the name of a function. -/
def FunctionName.weight (n : FunctionName) : Nat := n.name.length

/-- The characters of all names, and the number of the functions that have one. -/
def NameSection.weight (names : NameSection) : Nat :=
  (names.moduleName.map String.length).getD 0 + weigh FunctionName.weight names.functionNames

/-- The characters of the name of a custom section, and what is in the section. -/
def CustomSection.weight (c : CustomSection) : Nat :=
  c.name.length +
    match c with
    | .names found => found.weight
    | .raw _ content => content.length

/-- The entries of a section, each with what is in it. -/
def Section.weight : Section → Nat
  | custom content => content.weight
  | types entries => weigh FuncType.weight entries
  | imports entries => weigh Import.weight entries
  | functions entries => entries.length
  | tables entries => entries.length
  | memories entries => entries.length
  | globals entries => weigh GlobalVariable.weight entries
  | exports entries => weigh Export.weight entries
  | start _ => 0
  | elements entries => weigh ElementSegment.weight entries
  | bodies entries => weigh FunctionBody.weight entries
  | data entries => weigh DataSegment.weight entries

/-- The sections of a module, each with what is in it. -/
def Module.weight (m : Module) : Nat := weigh Section.weight m.sections

/-! ### Entries -/

theorem ValueType.pays : ValueType.reader.Pays 0 fun _ => 1 := .one lawful_reader ⟨_, rfl⟩

theorem TableType.pays : TableType.reader.Pays 0 fun _ => 1 := .one lawful_reader ⟨_, rfl⟩

theorem MemoryType.pays : MemoryType.reader.Pays 0 fun _ => 1 := .one lawful_reader ⟨_, rfl⟩

theorem GlobalType.pays : GlobalType.reader.Pays 0 fun _ => 1 := .one lawful_reader ⟨_, rfl⟩

theorem LocalGroup.pays : LocalGroup.reader.Pays 0 fun _ => 1 := .one lawful_reader ⟨_, rfl⟩

theorem ExternalKind.pays : ExternalKind.reader.Pays 0 fun _ => 1 := .one lawful_reader ⟨_, rfl⟩

theorem ImportDesc.pays (kind : ExternalKind) : (ImportDesc.reader kind).Pays 0 fun _ => 1 :=
  .one (lawful_reader kind) (by cases kind <;> exact ⟨_, rfl⟩)

/-- The constructor of a function type pays for the type, and each of its lists for the types in it.
-/
theorem FuncType.pays : FuncType.reader.Pays 0 fun t => 1 + t.weight := by
  refine Pays.next (.one Leb128.lawful_i7 ⟨_, rfl⟩) fun _ => .check ?_
  refine ValueType.pays.vec_length.next fun params => ?_
  refine ValueType.pays.vec_length.next fun results => .check (.pure ?_)
  dsimp only [weight]
  omega

theorem InitExpr.pays : InitExpr.reader.Pays 0 fun e => e.raw.length :=
  (Pays.captured lawful_expression).next fun p => .pure (by dsimp only; omega)

theorem GlobalVariable.pays : GlobalVariable.reader.Pays 0 fun g => 1 + g.weight :=
  GlobalType.pays.next fun _ => InitExpr.pays.next fun _ => .pure (by dsimp only [weight]; omega)

/-- Each name of an import pays for its characters; the size of the first pays for the import. -/
theorem Import.pays : Import.reader.Pays 0 fun i => 1 + i.weight := by
  refine Pays.name.next fun moduleName => Pays.name.next fun fieldName => ?_
  refine ExternalKind.pays.next fun kind => (ImportDesc.pays kind).next fun desc => .pure ?_
  dsimp only [weight]
  omega

theorem Export.pays : Export.reader.Pays 0 fun e => 1 + e.weight :=
  Pays.name.next fun _ => ExternalKind.pays.next fun _ => Pays.u32.next fun _ =>
    .pure (by dsimp only [weight]; omega)

theorem ElementSegment.pays : ElementSegment.reader.Pays 0 fun e => 1 + e.weight :=
  Pays.u32.next fun _ => InitExpr.pays.next fun _ => Pays.u32.vec_length.next fun _ =>
    .pure (by dsimp only [weight]; omega)

/-- The local variables and the code share the bytes that the body announces. -/
theorem FunctionBody.pays : FunctionBody.reader.Pays 0 fun b => 1 + b.weight := by
  refine Pays.sized.bind fun body => ?_
  exact ((LocalGroup.pays.vec_length.within body).charge 1).bind fun p =>
    .pure (by dsimp only [weight]; omega)

theorem DataSegment.pays : DataSegment.reader.Pays 0 fun d => 1 + d.weight :=
  Pays.u32.next fun _ => InitExpr.pays.next fun _ => Pays.sized.next fun _ =>
    .pure (by dsimp only [weight]; omega)

theorem FunctionName.pays : FunctionName.reader.Pays 0 fun n => 1 + n.weight :=
  Pays.u32.next fun _ => Pays.name.next fun _ => .pure (by dsimp only [weight]; omega)

/-- The readers of the entries of vectors. -/
inductive EntryReader : {α : Type} → Reader α → Prop where
  /-- Parameters and results. -/
  | valueType : EntryReader ValueType.reader
  /-- Function types. -/
  | funcType : EntryReader FuncType.reader
  /-- Imports. -/
  | imported : EntryReader Import.reader
  /-- Indices of types and of functions. -/
  | index : EntryReader Leb128.u32
  /-- Tables. -/
  | table : EntryReader TableType.reader
  /-- Memories. -/
  | memory : EntryReader MemoryType.reader
  /-- Global variables. -/
  | globalVariable : EntryReader GlobalVariable.reader
  /-- Exports. -/
  | exported : EntryReader Export.reader
  /-- Element segments. -/
  | elementSegment : EntryReader ElementSegment.reader
  /-- Groups of local variables. -/
  | localGroup : EntryReader LocalGroup.reader
  /-- Function bodies. -/
  | functionBody : EntryReader FunctionBody.reader
  /-- Data segments. -/
  | dataSegment : EntryReader DataSegment.reader
  /-- Names of functions. -/
  | functionName : EntryReader FunctionName.reader

/-- Every entry takes a byte. -/
theorem EntryReader.pays {α : Type} {item : Reader α} (h : EntryReader item) :
    item.Pays 0 fun _ => 1 := by
  cases h with
  | valueType => exact ValueType.pays
  | funcType => exact FuncType.pays.mono fun _ => Nat.le_add_right 1 _
  | imported => exact Import.pays.mono fun _ => Nat.le_add_right 1 _
  | index => exact Pays.u32
  | table => exact TableType.pays
  | memory => exact MemoryType.pays
  | globalVariable => exact GlobalVariable.pays.mono fun _ => Nat.le_add_right 1 _
  | exported => exact Export.pays.mono fun _ => Nat.le_add_right 1 _
  | elementSegment => exact ElementSegment.pays.mono fun _ => Nat.le_add_right 1 _
  | localGroup => exact LocalGroup.pays
  | functionBody => exact FunctionBody.pays.mono fun _ => Nat.le_add_right 1 _
  | dataSegment => exact DataSegment.pays.mono fun _ => Nat.le_add_right 1 _
  | functionName => exact FunctionName.pays.mono fun _ => Nat.le_add_right 1 _

/-! ### Sections -/

/-- The identifier of a frame and the size of its payload take a byte each at least. -/
theorem Frame.Intact.two_add_length_payload_le {frame : Frame} (h : frame.Intact) :
    2 + frame.payload.length ≤ frame.bytes.length := by
  obtain ⟨later, hbytes, hsized⟩ := h.exists_sized
  have hread := hsized []
  rw [List.append_nil] at hread
  have hpaid := Pays.sized.le hread
  rw [hbytes, List.length_cons]
  rw [List.length_nil] at hpaid
  omega

namespace NameSection

/-- A subsection adds no more to the names than it has bytes, even if it replaces what was there. -/
theorem weight_of_absorb {names names' : NameSection} {subsection : Frame}
    (h : (absorb names subsection).outcome = .ok names') :
    names'.weight ≤ names.weight + subsection.payload.length := by
  by_cases hname : subsection.id = 0
  · rw [outcome_absorb_moduleName hname, Except.map_eq_ok_iff] at h
    obtain ⟨p, hread, rfl⟩ := h
    have hpaid := Pays.name.le hread
    dsimp only [weight]
    rw [Option.map_some, Option.getD_some]
    omega
  · by_cases hfunctions : subsection.id = 1
    · rw [outcome_absorb_functionNames hfunctions, Except.map_eq_ok_iff] at h
      obtain ⟨p, hread, rfl⟩ := h
      have hpaid := FunctionName.pays.vec.le hread
      dsimp only [weight]
      omega
    · rw [outcome_absorb_other hname hfunctions] at h
      cases h
      exact Nat.le_add_right _ _

/-- Names weigh no more than the bytes of all subsections, by induction along these. -/
theorem weight_of_foldlM {names names' : NameSection} {subsections : List Frame}
    (hintact : ∀ f ∈ subsections, f.Intact)
    (h : (subsections.foldlM absorb names).outcome = .ok names') :
    names'.weight ≤ names.weight + (subsections.flatMap Frame.bytes).length := by
  induction subsections generalizing names with
  | nil =>
    cases h
    exact Nat.le_refl _
  | cons subsection later ih =>
    rw [List.foldlM_cons, Logged.outcome_bind, Except.bind_eq_ok_iff] at h
    obtain ⟨next, hnext, hlater⟩ := h
    obtain ⟨hfirst, hothers⟩ := List.forall_mem_cons.mp hintact
    have hnext := weight_of_absorb hnext
    have hlater := ih hothers hlater
    have hframe := hfirst.two_add_length_payload_le
    rw [List.flatMap_cons, List.length_append]
    omega

/-- A name section is read from subsections, each of which pays for what it adds. -/
theorem weight_of_ofPayload {names : NameSection} {payload : List UInt8}
    (h : (ofPayload payload).outcome = .ok names) : names.weight ≤ payload.length := by
  obtain ⟨subsections, hframing, hfound⟩ := outcome_ofPayload_eq_ok_iff.mp h
  obtain ⟨hjoin, hintact⟩ := Framing.ofBytes_eq_iff.mp hframing
  have hweight := weight_of_foldlM hintact hfound
  rw [← hjoin] at hweight
  exact hweight.trans_eq (Nat.zero_add _)

end NameSection

/-- The name of a custom section and what it holds are both paid for with the payload. -/
theorem CustomSection.weight_of_ofPayload {payload : List UInt8} {c : CustomSection}
    (h : (CustomSection.ofPayload payload).outcome = .ok c) : c.weight ≤ payload.length := by
  obtain ⟨name, content, hname, hcases⟩ := outcome_ofPayload_eq_ok_iff.mp h
  have hpaid := Pays.name.le hname
  obtain ⟨hnames, names, hfound, rfl⟩ | ⟨-, rfl⟩ := hcases
  · have hweight := NameSection.weight_of_ofPayload hfound
    dsimp only [weight, CustomSection.name]
    rw [← hnames]
    omega
  · dsimp only [weight, CustomSection.name]
    omega

namespace Section

/-- **What is read as a section is paid for**, by the cases of its kind. -/
theorem pays_of_reader? {kind : SectionKind} {reader : Reader Section}
    (h : reader? kind = some reader) : reader.Pays 0 weight := by
  cases kind <;> simp only [reader?, reduceCtorEq, Option.some.injEq] at h <;> subst h
  case types => exact FuncType.pays.vec.map fun _ => Nat.le_add_left _ 1
  case imports => exact Import.pays.vec.map fun _ => Nat.le_add_left _ 1
  case functions => exact Pays.u32.vec_length.map fun _ => Nat.le_add_left _ 1
  case tables => exact TableType.pays.vec_length.map fun _ => Nat.le_add_left _ 1
  case memories => exact MemoryType.pays.vec_length.map fun _ => Nat.le_add_left _ 1
  case globals => exact GlobalVariable.pays.vec.map fun _ => Nat.le_add_left _ 1
  case exports => exact Export.pays.vec.map fun _ => Nat.le_add_left _ 1
  case start => exact Pays.u32.map fun _ => Nat.zero_le 1
  case elements => exact ElementSegment.pays.vec.map fun _ => Nat.le_add_left _ 1
  case bodies => exact FunctionBody.pays.vec.map fun _ => Nat.le_add_left _ 1
  case data => exact DataSegment.pays.vec.map fun _ => Nat.le_add_left _ 1

end Section

/-- A section is paid for with the payload of its frame. -/
theorem Frame.weight_of_decode {frame : Frame} {s : Section} {unread : List UInt8}
    (h : frame.decode = .ok (s, unread)) : s.weight ≤ frame.payload.length := by
  unfold decode Section.ofPayload at h
  split at h
  · cases h
  · split at h
    · rename_i reader hreader
      exact Nat.le_of_add_right_le ((Section.pays_of_reader? hreader).le h)
    · rw [Logged.outcome_bind, Except.bind_eq_ok_iff] at h
      obtain ⟨c, hc, hpure⟩ := h
      cases hpure
      exact CustomSection.weight_of_ofPayload hc

/-! ### Modules -/

/-- Sections weigh no more than their frames. A frame has an identifier and a size in front of its
payload, either of which pays for the section itself. -/
theorem FramedSection.weigh_le_length_join {parts : List FramedSection}
    (h : ∀ p ∈ parts, p.frame.Intact ∧ p.frame.decodeLeniently = .ok p.content) :
    weigh Section.weight (parts.map (·.content)) ≤ (join parts).length := by
  induction parts with
  | nil => exact Nat.le_refl 0
  | cons p later ih =>
    obtain ⟨⟨hintact, hdecode⟩, hlater⟩ := List.forall_mem_cons.mp h
    obtain ⟨⟨content, unread⟩, hdecode, hcontent⟩ := Except.map_eq_ok_iff.mp hdecode
    have hpayload := Frame.weight_of_decode hdecode
    have hframe := hintact.two_add_length_payload_le
    have hothers := ih hlater
    rw [List.map_cons, weigh_cons, join_cons, List.length_append, ← hcontent]
    dsimp only
    omega

/-- **A module weighs no more than the bytes behind its header.** -/
theorem Module.size_add_weight_le_length {bytes : List UInt8} {m : Module}
    (h : Module.decode bytes = .ok m) : Header.size + m.weight ≤ bytes.length := by
  rw [Module.decode_eq, Except.map_eq_ok_iff] at h
  obtain ⟨⟨header, parts⟩, hstream, rfl⟩ := h
  obtain ⟨hheader, hbody, hall⟩ := decodeStream_eq_ok_iff.mp hstream
  have hlength := congrArg List.length hbody
  rw [List.length_append, Header.length_of_reads hheader] at hlength
  rw [hlength]
  exact Nat.add_le_add_left (FramedSection.weigh_le_length_join hall) _

/-- **A decoded module is not larger than its bytes**, whatever numbers these announce: neither the
entries of its lists at any level, the bytes it keeps and the characters of its texts, all taken
together. A vector that announces more entries than there are bytes behind the number is not read,
and no more entries are tried than there are bytes, and one. -/
theorem weight_le_length (bytes : List UInt8) :
    (∀ m, Module.decode bytes = .ok m → Header.size + m.weight ≤ bytes.length) ∧
    ∀ {α : Type} {item : Reader α}, EntryReader item →
      ∀ count rest, Leb128.u32 bytes = .ok (count, rest) → rest.length < count.toNat →
        ∃ attempts e, vec item bytes = .error e ∧
          manyCounted item count.toNat rest = (attempts, .error e) ∧
          attempts ≤ rest.length + 1 := by
  refine ⟨fun m => Module.size_add_weight_le_length, fun hitem count rest hcount hmore => ?_⟩
  obtain ⟨attempts, e, hcounted, hmany, hattempts⟩ := exists_manyCounted_eq_error hitem.pays hmore
  exact ⟨attempts, e, bind_eq_error_iff.mpr (.inr ⟨count, rest, hcount, hmany⟩), hcounted,
    hattempts⟩

/-- Two sections of thirteen bytes in all: a function type with a result, and a custom section with
a name of two bytes that are no text. They weigh one for each section, one for the type, one for its
result, and two characters and one byte for the custom section. A vector that announces as many
indices as 32 bits allow, and holds two, fails at the third. -/
theorem weight_le_length_lossy_name :
    let bytes := Header.magic ++ [0x01, 0x00, 0x00, 0x00,
      0x01, 0x05, 0x01, 0x60, 0x00, 0x01, 0x7f, 0x00, 0x04, 0x02, 0xff, 0xfe, 0x00]
    let numbers : List UInt8 := [0xff, 0xff, 0xff, 0xff, 0x0f, 0x05, 0x06]
    (∃ m, Module.decode bytes = .ok m ∧ m.weight = 7 ∧ Header.size + m.weight ≤ bytes.length) ∧
      manyCounted Leb128.u32 0xffffffff [0x05, 0x06] = (3, .error .unexpectedEnd) ∧
      ∃ attempts e, vec Leb128.u32 numbers = .error e ∧
        manyCounted Leb128.u32 0xffffffff [0x05, 0x06] = (attempts, .error e) ∧ attempts ≤ 3 := by
  intro bytes numbers
  have hdecode : ∃ m, Module.decode bytes = .ok m ∧ m.weight = 7 :=
    ⟨⟨{}, [.types [{ results := [.i32] }], .custom (.raw "\ufffd\ufffd" [0x00])]⟩,
      by decide +kernel, by decide +kernel⟩
  obtain ⟨m, hm, hweight⟩ := hdecode
  have hcount : Leb128.u32 numbers = .ok (0xffffffff, [0x05, 0x06]) := by decide +kernel
  have hcounted : manyCounted Leb128.u32 0xffffffff [0x05, 0x06] = (3, .error .unexpectedEnd) := by
    rfl
  exact ⟨⟨m, hm, hweight, (weight_le_length bytes).1 m hm⟩, hcounted,
    (weight_le_length numbers).2 .index 0xffffffff [0x05, 0x06] hcount (by decide)⟩

end WasmContract
