import WasmContract.Proofs.Contract.Canonicalization
import WasmContract.Proofs.Exports.First

/-!
# The exports of a contract

However many export sections a module has, the exports of its contract are the first `main` that is
a function and the first `memory` that is a memory, in the order of the stream
(`Contract.exports_of_read`).

So every export that is kept is of the kind it must be. Validation never complains about the number
of exports or about their kinds: a required export may be missing, and the function or the memory
behind it may be the wrong one (`SignatureFault.OfRightKind`).
-/

namespace WasmContract

/-- What can be wrong with a required export that is of the right kind: the function does not exist
or takes or returns something, and the memory is not the first. -/
def SignatureFault.OfRightKind : RequiredExport → SignatureFault → Prop
  | .main, fault => (∃ index, fault = missingFunction index) ∨ ∃ type, fault = functionType type
  | .memory, fault => ∃ index, index ≠ 0 ∧ fault = notFirstMemory .memory index

/-- The error is none about the number or the kinds of the exports. -/
def ValidationError.OfRightKinds : ValidationError → Prop
  | exportCount _ => False
  | exportSignature r fault => fault.OfRightKind r
  | _ => True

namespace Module

variable {m : Module} {e : ValidationError}

/-- Since `main` is looked up by its kind as well, only the function behind it can be wrong. -/
theorem exists_of_mem_mainFaults (h : e ∈ m.mainFaults) :
    ∃ fault : SignatureFault, fault.OfRightKind .main ∧ e = .exportSignature .main fault := by
  unfold mainFaults at h
  split at h
  · cases h
  · split at h
    · exact ⟨_, .inl ⟨_, rfl⟩, List.mem_singleton.mp h⟩
    · split at h
      · cases h
      · exact ⟨_, .inr ⟨_, rfl⟩, List.mem_singleton.mp h⟩

/-- All that can be wrong with `memory` is that it is not the first. -/
theorem exists_of_mem_memoryFaults (h : e ∈ m.memoryFaults) :
    ∃ fault : SignatureFault, fault.OfRightKind .memory ∧ e = .exportSignature .memory fault := by
  unfold memoryFaults at h
  split at h
  · cases h
  · split at h
    · cases h
    · rename_i hindex
      exact ⟨_, ⟨_, hindex, rfl⟩, List.mem_singleton.mp h⟩

/-- What holds of every error that a rule can report holds of all faults of a module. -/
theorem forall_mem_faults {P : ValidationError → Prop} {options : Options} (hstart : P .hasStart)
    (hcustom : P .hasCustom) (hmissing : ∀ r, P (.exportMissing r))
    (hexport : ∀ r (fault : SignatureFault), fault.OfRightKind r → P (.exportSignature r fault))
    (himport : ∀ i ∈ m.entries Section.imports?, ∀ e ∈ m.importFaults i, P e) :
    ∀ e ∈ m.faults options, P e := by
  simp only [faults, List.forall_mem_append]
  refine ⟨⟨⟨⟨⟨?_, ?_⟩, fun e he => ?_⟩, fun e he => ?_⟩, fun e he => ?_⟩, fun e he => ?_⟩
  · split
    · exact List.forall_mem_singleton.mpr hstart
    · exact List.forall_mem_nil _
  · split
    · exact List.forall_mem_singleton.mpr hcustom
    · exact List.forall_mem_nil _
  · obtain ⟨r, -, rfl⟩ := List.mem_map.mp he
    exact hmissing r
  · obtain ⟨fault, hfault, rfl⟩ := exists_of_mem_mainFaults he
    exact hexport .main fault hfault
  · obtain ⟨fault, hfault, rfl⟩ := exists_of_mem_memoryFaults he
    exact hexport .memory fault hfault
  · obtain ⟨i, hi, he⟩ := List.mem_flatMap.mp he
    exact himport i hi e he

/-- Faults of imports do not concern the exports. -/
theorem ofRightKinds_importFaults (i : Import) : ∀ e ∈ m.importFaults i, e.OfRightKinds := by
  unfold importFaults
  split
  · split
    · exact List.forall_mem_singleton.mpr trivial
    · split
      · exact List.forall_mem_singleton.mpr trivial
      · split
        · exact List.forall_mem_nil _
        · exact List.forall_mem_singleton.mpr trivial
  · exact List.forall_mem_singleton.mpr trivial

end Module

namespace Contract

variable {c : Contract} {m : Module} {bytes : List UInt8}

/-- The contract of a module is at most refused for faults of exports of the right kind. -/
theorem ofRightKinds_of_check {options : Options} {e : ValidationError}
    (h : (ofModule m bytes).check options = .error e) : e.OfRightKinds :=
  Module.forall_mem_faults trivial trivial (fun _ => trivial) (fun _ _ hfault => hfault)
    (fun i _ => Module.ofRightKinds_importFaults i) e (mem_faults_of_check h)

/-- **The exports of a contract** are the first entries of all export sections with the name and the
kind of a required export, in the order of the stream. There are at most two of them, under
different names. So no contract is refused for the number of its exports, and none for the kind of
`main` or `memory`, whatever the options. -/
theorem exports_of_read (h : read bytes = .ok c) :
    ∃ m, Module.decode bytes = .ok m ∧
      let entries := m.entries Section.exports?
      c.exports.Sublist entries ∧ c.exports.length ≤ 2 ∧ (c.exports.map Export.name).Nodup ∧
      (∀ e ∈ c.exports,
        (e.name = "main" ∧ e.kind = .func) ∨ (e.name = "memory" ∧ e.kind = .memory)) ∧
      c.exports = Exports.firsts entries ∧
      ∀ options e, c.validate options = .error e →
        (∀ count, e ≠ .exportCount count) ∧
        ∀ r fault, e = .exportSignature r fault → fault.OfRightKind r := by
  obtain ⟨m, hdecode, hc⟩ := eq_ofModule_of_read h
  have hselect : c.exports = Exports.select [] (m.entries Section.exports?) :=
    congrArg Contract.exports hc
  have hkept : Exports.Kept c.exports := hselect ▸ Exports.Kept.nil.select _
  refine ⟨m, hdecode, hselect ▸ Exports.select_sublist [] _, hkept.length_le,
    List.pairwise_map.mpr hkept.distinct, fun e he => Export.required_iff.mp (hkept.required e he),
    hselect.trans (Exports.select_eq_firsts _), fun options e hvalidate => ?_⟩
  rw [validate, outcome_validateLogged, hc] at hvalidate
  have hkinds := ofRightKinds_of_check hvalidate
  refine ⟨fun count heq => ?_, fun r fault heq => ?_⟩
  · rw [heq] at hkinds
    exact hkinds
  · rw [heq] at hkinds
    exact hkinds

/-- A global variable named `main` stands before the function, which stands in another section than
the memory, and there is a second function of the name. The contract has the exports it must have,
and is refused because there is no function of the index. -/
theorem exports_of_read_foreign_main :
    let bytes : List UInt8 := Header.magic ++ [0x01, 0x00, 0x00, 0x00,
      0x07, 0x11, 0x02, 0x04, 0x6d, 0x61, 0x69, 0x6e, 0x03, 0x00,
        0x06, 0x6d, 0x65, 0x6d, 0x6f, 0x72, 0x79, 0x02, 0x00,
      0x07, 0x0f, 0x02, 0x04, 0x6d, 0x61, 0x69, 0x6e, 0x00, 0x05,
        0x04, 0x6d, 0x61, 0x69, 0x6e, 0x00, 0x06]
    let c : Contract := {
      exports := [⟨"memory", .memory, 0⟩, ⟨"main", .func, 5⟩]
      bytes := Header.magic ++ [0x01, 0x00, 0x00, 0x00,
        0x07, 0x0a, 0x01, 0x06, 0x6d, 0x65, 0x6d, 0x6f, 0x72, 0x79, 0x02, 0x00,
        0x07, 0x08, 0x01, 0x04, 0x6d, 0x61, 0x69, 0x6e, 0x00, 0x05] }
    let e : ValidationError := .exportSignature .main (.missingFunction 5)
    read bytes = .ok c ∧
      (∃ m, Module.decode bytes = .ok m ∧ c.exports = Exports.firsts (m.entries Section.exports?)) ∧
      c.validate = .error e ∧ ∀ kind, e ≠ .exportSignature .main (.notFunction kind) := by
  intro bytes c e
  have hread : read bytes = .ok c := by decide +kernel
  have hvalidate : c.validate = .error e := by decide +kernel
  obtain ⟨m, hdecode, -, -, -, -, hfirsts, hkinds⟩ := exports_of_read hread
  refine ⟨hread, ⟨m, hdecode, hfirsts⟩, hvalidate, fun kind heq => ?_⟩
  rcases (hkinds {} e hvalidate).2 .main _ heq with ⟨index, hfault⟩ | ⟨type, hfault⟩
  · cases hfault
  · cases hfault

end Contract

end WasmContract
