import WasmContract.Proofs.Layout
import WasmContract.Proofs.Section.Payload

/-!
# The names in a name section

What the subsections of a name section amount to. Each subsection of type 0 or 1 says something, or
cannot be decoded (`NameSection.said?`). Of what is said the last of each kind counts
(`NameSection.ofEntries`), and the first subsection that cannot be decoded decides about the whole
section, even if a later one would have replaced it. Subsections of other types say nothing, and
what a subsection leaves unread is not part of what it says.

`NameSection.outcome_ofPayload` puts this into one equation, from which
`NameSection.names_of_subsections` tells for all name sections what they are decoded to, or why they
cannot be decoded.
-/

namespace WasmContract

namespace NameSection

/-- What a subsection says. -/
inductive Entry where
  /-- The name of the module. -/
  | moduleName (name : String)
  /-- The names of functions, all of them. -/
  | functionNames (names : List FunctionName)
deriving DecidableEq, Repr

/-- The name of the module, if the entry gives one. -/
def Entry.moduleName? : Entry → Option String
  | moduleName name => some name
  | functionNames _ => none

/-- The names of functions, if the entry gives them. -/
def Entry.functionNames? : Entry → Option (List FunctionName)
  | moduleName _ => none
  | functionNames names => some names

/-- What a subsection says, or why its payload cannot be decoded; nothing for a subsection of
another type than 0 and 1. -/
def said? (subsection : Frame) : Option (Except DecodeError Entry) :=
  match subsection.id with
  | 0 => some ((Reader.name subsection.payload).map fun p => .moduleName p.1)
  | 1 => some ((Reader.vec FunctionName.reader subsection.payload).map fun p => .functionNames p.1)
  | _ => none

/-- The names after a number of entries: the last entry of each kind counts. -/
def ofEntries (entries : List Entry) : NameSection where
  moduleName := (entries.filterMap Entry.moduleName?).getLast?
  functionNames := (entries.filterMap Entry.functionNames?).getLast?.getD []

/-- Replaces what an entry speaks of. -/
def set (names : NameSection) : Entry → NameSection
  | .moduleName name => { names with moduleName := some name }
  | .functionNames functionNames => { names with functionNames }

variable {payload content : List UInt8} {names : NameSection} {subsections : List Frame}

/-! ### Subsections in order -/

/-- Entries that are set one after the other replace each other. -/
theorem foldl_set (names : NameSection) (entries : List Entry) :
    entries.foldl set names = {
      moduleName := ((entries.filterMap Entry.moduleName?).getLast?).or names.moduleName
      functionNames :=
        (entries.filterMap Entry.functionNames?).getLast?.getD names.functionNames } := by
  induction entries generalizing names with
  | nil => rfl
  | cons entry later ih =>
    rw [List.foldl_cons, ih]
    cases entry <;> simp [set, Entry.moduleName?, Entry.functionNames?, List.getLast?_cons]

/-- Taking in a subsection sets what it says, fails if it cannot be decoded, and else does nothing.
-/
theorem outcome_absorb (names : NameSection) (subsection : Frame) :
    (absorb names subsection).outcome =
      (said? subsection).elim (.ok names) fun entry => entry.map names.set := by
  by_cases hname : subsection.id = 0
  · rw [outcome_absorb_moduleName hname, said?, hname]
    cases Reader.name subsection.payload <;> rfl
  · by_cases hfunctions : subsection.id = 1
    · rw [outcome_absorb_functionNames hfunctions, said?, hfunctions]
      cases Reader.vec FunctionName.reader subsection.payload <;> rfl
    · rw [outcome_absorb_other hname hfunctions]
      unfold said?
      split
      · exact absurd ‹_› hname
      · exact absurd ‹_› hfunctions
      · rfl

/-- Taking in subsections one after the other sets all that they say, up to the first failure. -/
theorem outcome_foldlM (names : NameSection) (subsections : List Frame) :
    (subsections.foldlM absorb names).outcome =
      ((subsections.filterMap said?).mapM id).map fun entries => entries.foldl set names := by
  induction subsections generalizing names with
  | nil => rfl
  | cons subsection later ih =>
    rw [List.foldlM_cons, Logged.outcome_bind, outcome_absorb]
    cases hentry : said? subsection with
    | none =>
      rw [List.filterMap_cons_none hentry, Option.elim_none, Except.ok_bind, ih]
    | some entry =>
      rw [List.filterMap_cons_some hentry, Except.mapM_id_cons, Option.elim_some]
      cases entry with
      | error e => rfl
      | ok entry =>
        rw [Except.ok_map, Except.ok_bind, Except.ok_bind, ih]
        cases (later.filterMap said?).mapM id <;> rfl

/-- **Decoding a name section** takes what its subsections say in order, and fails in the end if
something is left that is no subsection. -/
theorem outcome_ofPayload (content : List UInt8) :
    (ofPayload content).outcome =
      let framing := Framing.ofBytes content
      ((framing.frames.filterMap said?).mapM id).bind fun entries =>
        match framing.failure with
        | some (_, cause) => .error cause
        | none => .ok (ofEntries entries) := by
  rw [ofPayload, Logged.outcome_bind, outcome_foldlM]
  dsimp only
  cases ((Framing.ofBytes content).frames.filterMap said?).mapM id with
  | error e => rfl
  | ok entries =>
    rw [Except.ok_map, Except.ok_bind, Except.ok_bind, foldl_set, Option.or_none]
    cases (Framing.ofBytes content).failure <;> rfl

/-- A name section is decoded if it consists of subsections and each of them says something or
nothing. -/
theorem outcome_ofPayload_eq_ok_iff_entries : (ofPayload content).outcome = .ok names ↔
    (Framing.ofBytes content).failure = none ∧
      ∃ entries : List Entry, (Framing.ofBytes content).frames.filterMap said? = entries.map .ok ∧
        names = ofEntries entries := by
  simp only [outcome_ofPayload, Except.bind_eq_ok_iff, Except.mapM_id_eq_ok_iff]
  cases (Framing.ofBytes content).failure <;> simp [eq_comm]

/-- A name section is not decoded for the first of its subsections that is not, or else for what
follows them. -/
theorem outcome_ofPayload_eq_error_iff {e : DecodeError} :
    (ofPayload content).outcome = .error e ↔
      (∃ (entries : List Entry) (later : List (Except DecodeError Entry)),
        (Framing.ofBytes content).frames.filterMap said? =
          entries.map .ok ++ .error e :: later) ∨
      ∃ entries : List Entry, (Framing.ofBytes content).frames.filterMap said? = entries.map .ok ∧
        ∃ b, (Framing.ofBytes content).failure = some (b, e) := by
  simp only [outcome_ofPayload, Except.bind_eq_error_iff, Except.mapM_id_eq_ok_iff,
    Except.mapM_id_eq_error_iff]
  cases (Framing.ofBytes content).failure with
  | none => simp
  | some stop =>
    obtain ⟨b, cause⟩ := stop
    simp

/-- The first subsection should give a name of five bytes, and the second one does not help. -/
example : (ofPayload [0x00, 0x01, 0x05, 0x00, 0x02, 0x01, 0x6d]).outcome =
    .error .unexpectedEnd := by
  decide +kernel

/-! ### Whole sections -/

/-- A custom section of the name for it is decoded as a name section, which uses up its payload. -/
theorem outcome_section_ofPayload (h : Reader.name payload = .ok (sectionName, content)) :
    (Section.ofPayload SectionKind.custom.code payload).outcome =
      (ofPayload content).outcome.map fun names => (.custom (.names names), []) := by
  have hcustom : (CustomSection.ofPayload payload).outcome =
      (ofPayload content).outcome.map CustomSection.names := by
    rw [CustomSection.ofPayload, Logged.outcome_bind, Logged.outcome_ofExcept, h, Except.ok_bind]
    dsimp only
    rw [if_pos rfl]
    exact Logged.outcome_bind ..
  have hdecode : Frame.decode ⟨SectionKind.custom.code, payload, []⟩ =
      (CustomSection.ofPayload payload).outcome.map fun c => (.custom c, []) :=
    Frame.decode_of_id_custom rfl
  rw [Frame.decode, hcustom] at hdecode
  rw [hdecode]
  cases (ofPayload content).outcome <;> rfl

/-- **The names of a name section.** What stands behind the name of the section consists of
subsections, each a type of one byte, a size and a payload, and of a rest that is no further
subsection. If the section is decoded, there is no rest, nothing is left unread, and the last
subsections of type 0 and 1 give the name of the module and the names of functions. It cannot be
decoded if there is a subsection of type 0 or 1 whose payload cannot be decoded, and the first of
these decides about the error, or else if there is a rest. -/
theorem names_of_subsections (h : Reader.name payload = .ok (sectionName, content)) :
    ∃ (subsections : List Frame) (rest : List UInt8),
      content = subsections.flatMap Frame.bytes ++ rest ∧
      (∀ f ∈ subsections, ∃ size, f.Layout size) ∧
      (rest = [] ∨ ∃ cause, Frame.reader rest = .error cause) ∧
      let found := subsections.filterMap said?
      let decoded := (Section.ofPayload SectionKind.custom.code payload).outcome
      (∀ s unread, decoded = .ok (s, unread) ↔ unread = [] ∧ rest = [] ∧
        ∃ entries : List Entry, found = entries.map .ok ∧
          s = .custom (.names (ofEntries entries))) ∧
      ∀ e, decoded = .error e ↔
        (∃ (entries : List Entry) (later : List (Except DecodeError Entry)),
          found = entries.map .ok ++ .error e :: later) ∨
        (∃ entries : List Entry, found = entries.map .ok ∧ rest ≠ [] ∧
          Frame.reader rest = .error e) := by
  obtain ⟨rest, hcontent, hempty, hcause⟩ := Framing.exists_rest content
  refine ⟨(Framing.ofBytes content).frames, rest, hcontent,
    fun f hf => Frame.intact_iff.mp (Framing.intact_of_mem content f hf), ?_, ?_⟩
  · cases hfailure : (Framing.ofBytes content).failure with
    | none => exact .inl (hempty.mpr hfailure)
    | some stop => exact .inr ⟨stop.2, ((hcause stop.2).mpr ⟨stop.1, hfailure⟩).2⟩
  · simp only [outcome_section_ofPayload h, Except.map_eq_ok_iff, Except.map_eq_error_iff,
      outcome_ofPayload_eq_ok_iff_entries, outcome_ofPayload_eq_error_iff, hempty, hcause,
      implies_true, and_true]
    refine fun s unread => ⟨?_, ?_⟩
    · rintro ⟨names, ⟨hend, entries, hfound, rfl⟩, hs⟩
      obtain ⟨rfl, rfl⟩ := Prod.mk.inj hs
      exact ⟨rfl, hend, entries, hfound, rfl⟩
    · rintro ⟨rfl, hend, entries, hfound, rfl⟩
      exact ⟨_, ⟨hend, entries, hfound, rfl⟩, rfl⟩

/-- A second name replaces the first, whose subsection is followed by one of a type without a
meaning. The size of the second is padded, and its payload has a byte more than it needs. -/
theorem names_of_subsections_replaced :
    let content : List UInt8 := [0x00, 0x02, 0x01, 0x61, 0x02, 0x02, 0xff, 0xff,
      0x00, 0x83, 0x00, 0x01, 0x6d, 0x07, 0x01, 0x04, 0x01, 0x03, 0x01, 0x66]
    let payload := 0x04 :: 0x6e :: 0x61 :: 0x6d :: 0x65 :: content
    let names : NameSection := { moduleName := some "m", functionNames := [⟨3, "f"⟩] }
    Reader.name payload = .ok (sectionName, content) ∧
      (Section.ofPayload SectionKind.custom.code payload).outcome =
        .ok (.custom (.names names), []) ∧
      ∃ subsections : List Frame, content = subsections.flatMap Frame.bytes ∧
        (∀ f ∈ subsections, ∃ size, f.Layout size) ∧
        ∃ entries : List Entry, subsections.filterMap said? = entries.map .ok ∧
          names = ofEntries entries := by
  intro content payload names
  have hname : Reader.name payload = .ok (sectionName, content) := by decide +kernel
  have hdecoded : (Section.ofPayload SectionKind.custom.code payload).outcome =
      .ok (.custom (.names names), []) := by decide +kernel
  obtain ⟨subsections, rest, hcontent, hlayout, -, hok, -⟩ := names_of_subsections hname
  obtain ⟨-, rfl, entries, hfound, hnames⟩ := (hok _ _).mp hdecoded
  rw [List.append_nil] at hcontent
  exact ⟨hname, hdecoded, subsections, hcontent, hlayout, entries, hfound,
    CustomSection.names.inj (Section.custom.inj hnames)⟩

end NameSection

end WasmContract
