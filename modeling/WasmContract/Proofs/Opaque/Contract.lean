import WasmContract.Contract.Validity
import WasmContract.Proofs.Contract.Bytes
import WasmContract.Proofs.Opaque.Stream

/-!
# Opaque bytes

The code of functions, the data of segments, the content of custom sections that has no meaning, and
all bytes that are passed over do not influence how a stream is read: when they are overwritten, the
same module is decoded, with the new bytes in their fields, and the same contract is read, with the
new bytes in its canonical bytes (`opaque_bytes_are_opaque`).

A contract and its canonical sections depend on a module only through `Module.blank`, that is, on
what is left of it when the bytes that it keeps are blanked out.
-/

namespace WasmContract

variable {α : Type} {kept : List Export} {kind : SectionKind}

/-! ### Contracts without the bytes that are kept -/

namespace Section

/-- A view that does not see the sections that keep bytes sees the same when these are blank. -/
theorem view_blank {view : Section → Option α} (hcustom : ∀ content, view (custom content) = none)
    (hbodies : ∀ entries, view (bodies entries) = none)
    (hdata : ∀ entries, view (data entries) = none) (s : Section) : view s.blank = view s := by
  cases s with
  | custom content => exact (hcustom _).trans (hcustom content).symm
  | bodies entries => exact (hbodies _).trans (hbodies entries).symm
  | data entries => exact (hdata _).trans (hdata entries).symm
  | _ => rfl

theorem entries_blank {view : Section → Option (List α)}
    (hcustom : ∀ content, view (custom content) = none)
    (hbodies : ∀ entries, view (bodies entries) = none)
    (hdata : ∀ entries, view (data entries) = none) (s : Section) :
    s.blank.entries view = s.entries view :=
  congrArg (Option.getD · []) (view_blank hcustom hbodies hdata s)

theorem exports?_blank (s : Section) : s.blank.exports? = s.exports? :=
  view_blank (fun _ => rfl) (fun _ => rfl) (fun _ => rfl) s

theorem newExports_blank (kept : List Export) (s : Section) :
    s.blank.newExports kept = s.newExports kept :=
  congrArg (Exports.select kept) (entries_blank (fun _ => rfl) (fun _ => rfl) (fun _ => rfl) s)

/-- Nothing in an export section is blanked out. -/
theorem eq_exports_of_blank_eq {s : Section} {entries : List Export}
    (h : s.blank = exports entries) : s = exports entries := by
  cases s with
  | exports others => exact h
  | _ => cases h

/-- Blanking out bytes and dropping what does not remain may be done in any order. -/
theorem remainder_blank (kept : List Export) (s : Section) :
    s.blank.remainder kept = (s.remainder kept).map blank := by
  cases s with
  | exports entries =>
    change (exports entries).remainder kept = _
    rw [remainder]
    split <;> rfl
  | _ => rfl

end Section

namespace Module

/-- A view that does not see the sections that keep bytes sees the same of a module when these are
blank. -/
theorem entries_blank {view : Section → Option (List α)}
    (hcustom : ∀ content, view (.custom content) = none)
    (hbodies : ∀ entries, view (.bodies entries) = none)
    (hdata : ∀ entries, view (.data entries) = none) (m : Module) :
    m.blank.entries view = m.entries view := by
  rw [entries, blank, List.flatMap_map, entries]
  exact List.flatMap_congr fun s _ => Section.entries_blank hcustom hbodies hdata s

theorem has_blank (kind : SectionKind) (m : Module) : m.blank.Has kind ↔ m.Has kind := by
  simp [Has, blank]

end Module

namespace Contract

/-- A contract depends on a module through what is left of it without the bytes that it keeps. -/
theorem ofModule_blank (m : Module) (bytes : List UInt8) :
    ofModule m.blank bytes = ofModule m bytes := by
  simp only [ofModule, Module.has_blank]
  rw [Module.entries_blank, Module.entries_blank, Module.entries_blank, Module.entries_blank]
  all_goals exact fun _ => rfl

/-- Modules that differ only in the bytes that they keep make the same contract. -/
theorem ofModule_congr {m m' : Module} (h : m'.blank = m.blank) (bytes : List UInt8) :
    ofModule m' bytes = ofModule m bytes := by
  rw [← ofModule_blank, h, ofModule_blank]

end Contract

/-! ### Canonical sections -/

namespace FramedSection

variable {p p' : FramedSection} {parts parts' : List FramedSection}

/-- What remains of a section that is overwritten is overwritten as well. -/
theorem Overwritten.remainder (h : Overwritten p p') (hkept : Exports.Kept kept)
    (hexact : p.Exact) :
    List.Forall₂ Overwritten (p.remainder kept).toList (p'.remainder kept).toList := by
  have hblank : (p'.content.remainder kept).map Section.blank =
      (p.content.remainder kept).map Section.blank := by
    rw [← Section.remainder_blank, h.blank, Section.remainder_blank]
  rcases remainder_cases kept p with ⟨hp, -⟩ | ⟨hp, hview⟩ | ⟨entries, hcontent, hnew, hp⟩
  · -- a section that is dropped is dropped whatever bytes it keeps
    rw [Option.map_eq_none_iff.mp hp, Option.map_none, Option.map_eq_none_iff] at hblank
    have hp' : p'.remainder kept = none := Option.map_eq_none_iff.mpr hblank
    rw [hp, hp']
    exact .nil
  · rcases remainder_cases kept p' with ⟨hp', -⟩ | ⟨hp', -⟩ | ⟨entries, hcontent, -⟩
    · rw [Option.map_eq_none_iff.mp hp', Option.map_none, eq_comm, Option.map_eq_none_iff] at hblank
      cases hp.symm.trans (Option.map_eq_none_iff.mpr hblank)
    · rw [hp, hp']
      exact .cons h .nil
    · rw [← Section.exports?_blank, ← h.blank, hcontent] at hview
      cases hview
  · -- an export section is written anew, and it keeps no bytes
    have hcontent' : p'.content = .exports entries :=
      Section.eq_exports_of_blank_eq (by rw [h.blank, hcontent]; rfl)
    have hp' : p'.remainder kept = p.remainder kept := by
      simp only [FramedSection.remainder, hcontent, hcontent', Section.remainder, if_neg hnew,
        Option.map_some]
      rfl
    have hq := hexact.of_remainder hkept hp
    rw [hp', hp]
    exact .cons (.refl hq.intact (Frame.decodeLeniently_eq_ok_iff.mpr ⟨[], hq.decode⟩)) .nil

/-- What remains of sections that are overwritten is overwritten, section by section. The exports
kept so far are the same in both lists, since blank sections list the same exports. -/
theorem forall₂_remainders (h : List.Forall₂ Overwritten parts parts')
    (hkept : Exports.Kept kept) (hexact : ∀ p ∈ parts, p.Exact) :
    List.Forall₂ Overwritten (remainders kept parts).reduceOption
      (remainders kept parts').reduceOption := by
  induction h generalizing kept with
  | nil => exact .nil
  | @cons p p' later later' hp _ ih =>
    obtain ⟨hfirst, hlater⟩ := List.forall_mem_cons.mp hexact
    have hnew : p'.content.newExports kept = p.content.newExports kept := by
      rw [← Section.newExports_blank, hp.blank, Section.newExports_blank]
    rw [remainders, remainders, reduceOption_cons, reduceOption_cons, hnew]
    exact List.rel_append (hp.remainder hkept hfirst) (ih (hkept.append_select _) hlater)

/-- The canonical form of sections that are overwritten is overwritten, section by section. -/
theorem forall₂_canonical (h : List.Forall₂ Overwritten parts parts')
    (hexact : ∀ p ∈ parts, p.Exact) :
    List.Forall₂ Overwritten (canonical parts) (canonical parts') :=
  forall₂_remainders h .nil hexact

/-- In canonical form, only code and data can be overwritten. -/
theorem copied_of_mem_roles_canonical (hexact : ∀ p ∈ parts, p.Exact) {role : Role}
    (hrole : role ∈ roles (canonical parts)) :
    role = .format ∨ role = .code ∨ role = .data := by
  obtain ⟨q, hq, hmem⟩ := List.mem_flatMap.mp hrole
  have hcontent : q.content ∈ (Section.remainders [] (parts.map (·.content))).reduceOption := by
    rw [← map_content_reduceOption]
    exact List.mem_map_of_mem hq
  obtain ⟨-, hkind⟩ := Section.kind_of_mem_remainders hcontent
  rcases Role.mem_endingIn hmem with hformat | hpayload
  · exact .inl hformat
  · have hsurvives := Frame.survives_of_decode (exact_canonical hexact q hq).decode
    exact hsurvives.copied rfl hkind role hpayload

end FramedSection

/-- Code and data stay in canonical form; the content of custom sections does not. -/
theorem Section.stable_kept? {role : Role} (h : role ≠ .content) : Stable (kept? role) where
  custom content := by
    cases role with
    | content => exact absurd rfl h
    | _ => rfl
  start function := by cases role <;> rfl
  exports entries := by cases role <;> rfl

/-! ### Reading -/

namespace Contract

variable {c : Contract} {bytes bytes' : List UInt8}

/-- Code and data that are overwritten stand in the canonical bytes instead of the old ones. -/
theorem exists_of_overwrites (h : read bytes = .ok c)
    (hnew : Overwrites (Module.roles bytes) bytes bytes') :
    ∃ canonical, read bytes' = .ok { c with bytes := canonical } ∧
      Overwrites (Module.roles c.bytes) c.bytes canonical ∧
      (∀ role ∈ Module.roles c.bytes, role = .format ∨ role = .code ∨ role = .data) ∧
      ∀ role, role = .code ∨ role = .data →
        pick role (Module.roles c.bytes) canonical = pick role (Module.roles bytes) bytes' := by
  obtain ⟨⟨header, parts⟩, hstream, rfl⟩ := read_eq_ok_iff.mp h
  have hlenient := hstream.decodeStream_eq_ok
  obtain ⟨parts', hparts, hbytes', hdecode⟩ := Module.exists_of_overwrites hlenient hnew
  have hstream' : ExactStream bytes' (header, parts') := by
    obtain ⟨hheader', hbody', -⟩ := decodeStream_eq_ok_iff.mp hdecode
    exact ⟨hheader', hbody', forall_mem_of_forall₂ hparts (fun _ _ hp => hp.exact) hstream.exact⟩
  have hcanonical := (exactStream_canonical hstream).decodeStream_eq_ok
  have hforall := FramedSection.forall₂_canonical hparts hstream.exact
  have htake : bytes'.take Header.size = bytes.take Header.size := by
    rw [hbytes', List.take_left' hstream.length_take]
  obtain ⟨hover, hpick⟩ := Module.overwrites_of_forall₂ hcanonical hforall rfl
  rw [List.take_left' hstream.length_take] at hover hpick
  refine ⟨bytes.take Header.size ++ FramedSection.join (FramedSection.canonical parts'),
    read_eq_ok_iff.mpr ⟨_, hstream', ?_⟩, hover, fun role hrole => ?_, fun role hrole => ?_⟩
  · rw [htake]
    exact (ofModule_congr (Module.blank_of_forall₂ hparts) _).symm
  · rw [ofModule, Module.roles_of_decodeStream hcanonical] at hrole
    rcases Role.mem_endingIn hrole with hformat | hmem
    · exact .inl hformat
    · exact FramedSection.copied_of_mem_roles_canonical hstream.exact hmem
  · have hkept : role.IsKept := hrole.imp_right .inl
    have hcontent : role ≠ .content := by rcases hrole with rfl | rfl <;> decide
    have hremain : (Module.ofStream (header, FramedSection.canonical parts')).contents role =
        (Module.ofStream (header, parts')).contents role := by
      rw [Module.ofStream_canonical (header, parts')]
      exact Module.entries_canonical (Section.stable_kept? hcontent) _
    rw [(Module.overwrites_of_forall₂ hlenient hparts hbytes').2 role hkept, ← hremain]
    exact hpick role hkept

end Contract

/-- **Opaque bytes are opaque.** All bytes but those of the format may be overwritten by any others
in the same number. The module that is decoded then differs only in the code, the data and the
content that it keeps, which are the new bytes in their places, and not at all if only bytes that
are passed over have changed. The contract that is read differs only in its canonical bytes, and
there only where code and data have been copied to, so it is as valid as before. -/
theorem opaque_bytes_are_opaque {bytes bytes' : List UInt8}
    (hnew : Overwrites (Module.roles bytes) bytes bytes') :
    (∀ m, Module.decode bytes = .ok m → ∃ m', Module.decode bytes' = .ok m' ∧
      m'.blank = m.blank ∧
      (∀ role, role.IsKept → m.contents role = pick role (Module.roles bytes) bytes ∧
        m'.contents role = pick role (Module.roles bytes) bytes') ∧
      ((∀ role, role.IsKept → pick role (Module.roles bytes) bytes' =
        pick role (Module.roles bytes) bytes) → m' = m)) ∧
    ∀ c, Contract.read bytes = .ok c → ∃ canonical,
      let c' := { c with bytes := canonical }
      Contract.read bytes' = .ok c' ∧
      Overwrites (Module.roles c.bytes) c.bytes canonical ∧
      (∀ role ∈ Module.roles c.bytes, role = .format ∨ role = .code ∨ role = .data) ∧
      (∀ role, role = .code ∨ role = .data →
        pick role (Module.roles c.bytes) c.bytes = pick role (Module.roles bytes) bytes ∧
        pick role (Module.roles c.bytes) canonical = pick role (Module.roles bytes) bytes') ∧
      ∀ options, c'.validate options = c.validate options := by
  refine ⟨fun m hm => ?_, fun c hc => ?_⟩
  · obtain ⟨m', hdecode, hblank, hcontents⟩ := Module.decode_of_overwrites hm hnew
    refine ⟨m', hdecode, hblank, fun role hrole =>
      ⟨Module.contents_of_decode hm hrole, hcontents role hrole⟩, fun hsame => ?_⟩
    refine Module.eq_of_blank_eq hblank fun role hrole => ?_
    rw [hcontents role hrole, hsame role hrole, Module.contents_of_decode hm hrole]
  · obtain ⟨canonical, hread, hover, hcopied, hpick⟩ := Contract.exists_of_overwrites hc hnew
    refine ⟨canonical, hread, hover, hcopied, fun role hrole => ⟨?_, hpick role hrole⟩,
      fun options => rfl⟩
    -- the old bytes are those that stand there when nothing is overwritten
    obtain ⟨same, hagain, -, -, hold⟩ := Contract.exists_of_overwrites hc (.refl _ _)
    have hsame : c.bytes = same := congrArg Contract.bytes (Except.ok.inj (hc.symm.trans hagain))
    rw [← hold role hrole, hsame]

/-- The content of a custom section, the code of a function, the data of a segment and a subsection
of an unknown type in a name section are overwritten in a valid contract. -/
theorem opaque_bytes_are_opaque_four_bytes :
    let bytes : List UInt8 := [0x00, 0x61, 0x73, 0x6d, 0x01, 0x00, 0x00, 0x00,
      0x00, 0x03, 0x01, 0x78, 0xaa, 0x01, 0x04, 0x01, 0x60, 0x00, 0x00, 0x03, 0x02, 0x01, 0x00,
      0x07, 0x11, 0x02, 0x04, 0x6d, 0x61, 0x69, 0x6e, 0x00, 0x00,
      0x06, 0x6d, 0x65, 0x6d, 0x6f, 0x72, 0x79, 0x02, 0x00,
      0x0a, 0x04, 0x01, 0x02, 0x00, 0x0b, 0x0b, 0x07, 0x01, 0x00, 0x41, 0x00, 0x0b, 0x01, 0x2a,
      0x00, 0x08, 0x04, 0x6e, 0x61, 0x6d, 0x65, 0x02, 0x01, 0x55]
    let bytes' : List UInt8 := [0x00, 0x61, 0x73, 0x6d, 0x01, 0x00, 0x00, 0x00,
      0x00, 0x03, 0x01, 0x78, 0xbb, 0x01, 0x04, 0x01, 0x60, 0x00, 0x00, 0x03, 0x02, 0x01, 0x00,
      0x07, 0x11, 0x02, 0x04, 0x6d, 0x61, 0x69, 0x6e, 0x00, 0x00,
      0x06, 0x6d, 0x65, 0x6d, 0x6f, 0x72, 0x79, 0x02, 0x00,
      0x0a, 0x04, 0x01, 0x02, 0x00, 0x00, 0x0b, 0x07, 0x01, 0x00, 0x41, 0x00, 0x0b, 0x01, 0x2b,
      0x00, 0x08, 0x04, 0x6e, 0x61, 0x6d, 0x65, 0x02, 0x01, 0x66]
    let c : Contract := {
      types := [{}]
      functions := [0]
      exports := [⟨"main", .func, 0⟩, ⟨"memory", .memory, 0⟩]
      hasCustom := true
      bytes := [0x00, 0x61, 0x73, 0x6d, 0x01, 0x00, 0x00, 0x00,
        0x01, 0x04, 0x01, 0x60, 0x00, 0x00, 0x03, 0x02, 0x01, 0x00,
        0x07, 0x11, 0x02, 0x04, 0x6d, 0x61, 0x69, 0x6e, 0x00, 0x00,
        0x06, 0x6d, 0x65, 0x6d, 0x6f, 0x72, 0x79, 0x02, 0x00,
        0x0a, 0x04, 0x01, 0x02, 0x00, 0x0b, 0x0b, 0x07, 0x01, 0x00, 0x41, 0x00, 0x0b, 0x01, 0x2a] }
    Overwrites (Module.roles bytes) bytes bytes' ∧ Contract.read bytes = .ok c ∧
      (∃ m', Module.decode bytes' = .ok m' ∧ m'.contents .code = [0x00] ∧
        m'.contents .data = [0x2b] ∧ m'.contents .content = [0xbb]) ∧
      ∃ canonical, Contract.read bytes' = .ok { c with bytes := canonical } ∧
        pick .code (Module.roles c.bytes) canonical = [0x00] ∧
        pick .data (Module.roles c.bytes) canonical = [0x2b] ∧
        { c with bytes := canonical }.validate ⟨true⟩ = .ok () := by
  intro bytes bytes' c
  have hnew : Overwrites (Module.roles bytes) bytes bytes' := by decide +kernel
  have hread : Contract.read bytes = .ok c := by decide +kernel
  have hvalid : c.validate ⟨true⟩ = .ok () := by decide +kernel
  have hcode : pick .code (Module.roles bytes) bytes' = [0x00] := by decide +kernel
  have hdata : pick .data (Module.roles bytes) bytes' = [0x2b] := by decide +kernel
  have hcontent : pick .content (Module.roles bytes) bytes' = [0xbb] := by decide +kernel
  obtain ⟨m, hdecode, -⟩ := Contract.eq_ofModule_of_read hread
  obtain ⟨hmodule, hcontract⟩ := opaque_bytes_are_opaque hnew
  obtain ⟨m', hdecode', -, hcontents, -⟩ := hmodule m hdecode
  obtain ⟨canonical, hread', -, -, hpick, hvalidate⟩ := hcontract c hread
  refine ⟨hnew, hread, ⟨m', hdecode', ?_, ?_, ?_⟩, canonical, hread', ?_, ?_, ?_⟩
  · rw [(hcontents .code (.inl rfl)).2, hcode]
  · rw [(hcontents .data (.inr (.inl rfl))).2, hdata]
  · rw [(hcontents .content (.inr (.inr rfl))).2, hcontent]
  · rw [(hpick .code (.inl rfl)).2, hcode]
  · rw [(hpick .data (.inr rfl)).2, hdata]
  · rw [hvalidate ⟨true⟩, hvalid]

end WasmContract
