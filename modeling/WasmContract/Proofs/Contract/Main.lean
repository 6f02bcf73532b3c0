import WasmContract.Proofs.Contract.Canonicalization
import WasmContract.Proofs.Contract.Host

/-!
# The function that runs a contract

A valid contract runs a function of its own: its export `main` is never a host function in disguise.
No single rule says so. The rules ask that `main` takes and returns nothing, and that every import
is a host function of the type that the host gives it. Imported functions come first in the index
space, and the host has no function that takes and returns nothing (`Host.not_matches_nil`), so the
index of `main` lies behind those of all imports (`Contract.main_is_defined`).
-/

namespace WasmContract

/-- Every function of the host has a parameter or a result. -/
theorem Host.not_matches_nil {moduleName fieldName : String} {host : HostFunc}
    (h : Host.lookup? moduleName fieldName = some host) :
    ¬(host.params = [] ∧ host.results = []) := by
  have hall : ∀ f ∈ Host.debug ++ Host.ethereum, ¬(f.params = [] ∧ f.results = []) := by decide
  refine hall host ?_
  rcases Host.lookup?_eq_some_iff.mp h with ⟨-, ⟨-, hmem⟩ | ⟨-, hmem⟩⟩
  · exact List.mem_append_left _ hmem
  · exact List.mem_append_right _ hmem

namespace Contract

variable {c : Contract} {options : Options}

/-! ### What the rules establish -/

/-- An import that is accepted is a function with a type, and not with the type of `main`. -/
theorem exists_of_validateImport {i : Import} (h : c.validateImport i = .ok ()) :
    ∃ typeIndex type, i.desc = .func typeIndex ∧ c.types[typeIndex.toNat]? = some type ∧
      ¬type.Matches [] [] := by
  unfold validateImport at h
  split at h
  · cases h
  rename_i typeIndex hdesc
  split at h
  · cases h
  rename_i found hfound
  split at h
  · cases h
  rename_i host hlookup
  split at h
  · rename_i hmatches
    refine ⟨typeIndex, found, ?_, hfound, ?_⟩
    · cases hi : i.desc <;> rw [hi] at hdesc <;> cases hdesc
      rfl
    · rintro ⟨hparams, hresults⟩
      exact Host.not_matches_nil hlookup
        ⟨hmatches.1.symm.trans hparams, hmatches.2.symm.trans hresults⟩
  · cases h

/-- A function `main` that is accepted takes and returns nothing. -/
theorem exists_of_validateMain (h : c.validateMain = .ok ()) :
    ∃ main type, c.find? .main = some main ∧ main.kind = .func ∧
      c.funcType? main.index = some type ∧ type.Matches [] [] := by
  unfold validateMain at h
  split at h
  · cases h
  rename_i main hmain
  split at h
  · cases h
  rename_i hkind
  split at h
  · cases h
  rename_i type htype
  split at h
  · rename_i hmatches
    exact ⟨main, type, hmain, not_not.mp hkind, htype, hmatches⟩
  · cases h

theorem validateImport_of_forM {imports : List Import}
    (h : imports.forM c.validateImport = .ok ()) : ∀ i ∈ imports, c.validateImport i = .ok () := by
  induction imports with
  | nil => exact List.forall_mem_nil _
  | cons i later ih =>
    obtain ⟨⟨⟩, hi, hlater⟩ := Except.bind_eq_ok_iff.mp h
    exact List.forall_mem_cons.mpr ⟨hi, ih hlater⟩

/-- A contract passes the check only if it passes the rules for `main` and for each import. -/
theorem check_eq_ok (h : c.check options = .ok ()) :
    c.validateMain = .ok () ∧ ∀ i ∈ c.imports, c.validateImport i = .ok () := by
  rw [check_eq] at h
  obtain ⟨-, -, h⟩ := Except.bind_eq_ok_iff.mp h
  obtain ⟨-, -, h⟩ := Except.bind_eq_ok_iff.mp h
  obtain ⟨-, -, h⟩ := Except.bind_eq_ok_iff.mp h
  obtain ⟨⟨⟩, hmain, h⟩ := Except.bind_eq_ok_iff.mp h
  obtain ⟨-, -, h⟩ := Except.bind_eq_ok_iff.mp h
  exact ⟨hmain, validateImport_of_forM h⟩

/-! ### The index of `main` -/

/-- If all imports are functions, those that they import are as many. -/
theorem length_importedFunctions (h : ∀ i ∈ c.imports, ∃ typeIndex, i.desc = .func typeIndex) :
    c.importedFunctions.length = c.imports.length := by
  refine List.filterMap_length_eq_length.mpr fun i hi => ?_
  obtain ⟨typeIndex, hdesc⟩ := h i hi
  rw [hdesc]
  rfl

/-- A function has the type of an import, or it is defined and lies behind all imports. -/
theorem funcType?_eq_some {index : UInt32} {type : FuncType} (h : c.funcType? index = some type) :
    (∃ i ∈ c.imports, ∃ typeIndex, i.desc.funcType? = some typeIndex ∧
      c.types[typeIndex.toNat]? = some type) ∨
    (c.importedFunctions.length ≤ index.toNat ∧ ∃ typeIndex,
      c.functions[index.toNat - c.importedFunctions.length]? = some typeIndex ∧
      c.types[typeIndex.toNat]? = some type) := by
  unfold funcType? at h
  dsimp only at h
  split at h
  · rename_i typeIndex himported
    obtain ⟨i, hi, hdesc⟩ := List.mem_filterMap.mp (List.mem_of_getElem? himported)
    exact .inl ⟨i, hi, typeIndex, hdesc, h⟩
  · rename_i hnone
    obtain ⟨typeIndex, hdefined, htype⟩ := Option.bind_eq_some_iff.mp h
    exact .inr ⟨List.getElem?_eq_none_iff.mp hnone, typeIndex, hdefined, htype⟩

/-- **A valid contract defines its function `main` itself.** All imports are functions, the index of
`main` lies behind them among the functions that the module defines, and the function there takes
and returns nothing. -/
theorem main_is_defined {bytes : List UInt8} (hread : read bytes = .ok c)
    (hvalid : c.validate options = .ok ()) :
    ∃ m main typeIndex type, Module.decode bytes = .ok m ∧
      c.types = m.entries Section.types? ∧ c.imports = m.entries Section.imports? ∧
      c.functions = m.entries Section.functions? ∧
      c.find? .main = some main ∧ main.kind = .func ∧
      (∀ i ∈ c.imports, i.desc.kind = .func) ∧
      c.imports.length ≤ main.index.toNat ∧
      main.index.toNat - c.imports.length < c.functions.length ∧
      c.functions[main.index.toNat - c.imports.length]? = some typeIndex ∧
      c.types[typeIndex.toNat]? = some type ∧ type.params = [] ∧ type.results = [] := by
  obtain ⟨m, hdecode, hc⟩ := eq_ofModule_of_read hread
  rw [validate, outcome_validateLogged] at hvalid
  obtain ⟨hvalidMain, hvalidImport⟩ := check_eq_ok hvalid
  obtain ⟨main, type, hmain, hkind, htype, hmatches⟩ := exists_of_validateMain hvalidMain
  have himports : ∀ i ∈ c.imports, ∃ typeIndex, i.desc = .func typeIndex := by
    intro i hi
    obtain ⟨typeIndex, -, hdesc, -⟩ := exists_of_validateImport (hvalidImport i hi)
    exact ⟨typeIndex, hdesc⟩
  have hlength := length_importedFunctions himports
  rcases funcType?_eq_some htype with ⟨i, hi, typeIndex, hdesc, hfound⟩ |
    ⟨hle, typeIndex, hdefined, hfound⟩
  · -- an imported function has the type of a host function, which is not that of `main`
    obtain ⟨typeIndex', type', hdesc', hfound', hnot⟩ :=
      exists_of_validateImport (hvalidImport i hi)
    rw [hdesc'] at hdesc
    cases hdesc
    cases hfound.symm.trans hfound'
    exact absurd hmatches hnot
  · rw [hlength] at hle hdefined
    refine ⟨m, main, typeIndex, type, hdecode, by rw [hc]; rfl, by rw [hc]; rfl, by rw [hc]; rfl,
      hmain, hkind, fun i hi => ?_, hle, ?_, hdefined, hfound, hmatches.1, hmatches.2⟩
    · obtain ⟨typeIndex, hdesc⟩ := himports i hi
      rw [hdesc]
      rfl
    · exact (List.getElem?_eq_some_iff.mp hdefined).1

/-- A contract that pays for its work by a host function: `main` is the function behind that one,
and it has the first of two types. -/
theorem main_is_defined_use_gas :
    let bytes : List UInt8 := [0x00, 0x61, 0x73, 0x6d, 0x01, 0x00, 0x00, 0x00,
      0x01, 0x08, 0x02, 0x60, 0x00, 0x00, 0x60, 0x01, 0x7e, 0x00,
      0x02, 0x13, 0x01, 0x08, 0x65, 0x74, 0x68, 0x65, 0x72, 0x65, 0x75, 0x6d,
      0x06, 0x75, 0x73, 0x65, 0x47, 0x61, 0x73, 0x00, 0x01,
      0x03, 0x02, 0x01, 0x00, 0x05, 0x03, 0x01, 0x00, 0x01,
      0x07, 0x11, 0x02, 0x04, 0x6d, 0x61, 0x69, 0x6e, 0x00, 0x01,
      0x06, 0x6d, 0x65, 0x6d, 0x6f, 0x72, 0x79, 0x02, 0x00, 0x0a, 0x04, 0x01, 0x02, 0x00, 0x0b]
    let c : Contract := {
      types := [{}, { params := [.i64] }]
      imports := [⟨"ethereum", "useGas", .func 1⟩]
      functions := [0]
      exports := [⟨"main", .func, 1⟩, ⟨"memory", .memory, 0⟩]
      bytes }
    read bytes = .ok c ∧ c.validate = .ok () ∧
      ∃ main typeIndex type, c.find? .main = some main ∧ 1 ≤ main.index.toNat ∧
        c.functions[main.index.toNat - 1]? = some typeIndex ∧
        c.types[typeIndex.toNat]? = some type ∧ type.params = [] ∧ type.results = [] := by
  intro bytes c
  have hread : read bytes = .ok c := by decide +kernel
  have hvalid : c.validate = .ok () := by decide +kernel
  obtain ⟨-, main, typeIndex, type, -, -, -, -, hmain, -, -, hle, -, hdefined, htype, hnullary⟩ :=
    main_is_defined hread hvalid
  exact ⟨hread, hvalid, main, typeIndex, type, hmain, hle, hdefined, htype, hnullary⟩

end Contract

end WasmContract
