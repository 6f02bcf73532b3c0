import WasmContract.Contract.Validity
import WasmContract.Proofs.Contract.Reading

/-!
# What is wrong with a module

`Module.faults` lists everything that keeps a module from being a valid contract, in the order in
which the rules are checked. It is a matter of the sections of the module alone, all those of one
kind taken together. Checking the contract of a module reports the first of these faults, and
succeeds if there are none (`Contract.check_ofModule`).
-/

namespace WasmContract

/-! ### The faults of a module -/

namespace Module

/-- The type indices of all functions: the imported ones first, then those that are defined. -/
def typeIndices (m : Module) : List UInt32 :=
  (m.entries Section.imports?).filterMap (·.desc.funcType?) ++ m.entries Section.functions?

/-- The type of the function with a given index. -/
def funcType? (m : Module) (index : UInt32) : Option FuncType :=
  m.typeIndices[index.toNat]?.bind fun typeIndex => (m.entries Section.types?)[typeIndex.toNat]?

/-- The first entry with the name and kind of a required export. -/
def export? (m : Module) (r : RequiredExport) : Option Export :=
  (m.entries Section.exports?).find? fun e => e.name = r.name ∧ e.kind = r.kind

/-- The required exports that are not there. -/
def missingExports (m : Module) : List RequiredExport :=
  [.main, .memory].filter fun r => m.export? r = none

/-- What is wrong with the function `main`: it does not exist, or it has parameters or results. -/
def mainFaults (m : Module) : List ValidationError :=
  match m.export? .main with
  | none => []
  | some main =>
    match m.funcType? main.index with
    | none => [.exportSignature .main (.missingFunction main.index)]
    | some type =>
      if type.params = [] ∧ type.results = [] then []
      else [.exportSignature .main (.functionType type)]

/-- What is wrong with the memory `memory`: it is not the first. -/
def memoryFaults (m : Module) : List ValidationError :=
  match m.export? .memory with
  | none => []
  | some memory =>
    if memory.index = 0 then []
    else [.exportSignature .memory (.notFirstMemory .memory memory.index)]

/-- What is wrong with an import: it is no function, or has a type index without a type, or is not
offered by the host, or has another type than what the host offers. -/
def importFaults (m : Module) (i : Import) : List ValidationError :=
  match i.desc with
  | .func typeIndex =>
    match (m.entries Section.types?)[typeIndex.toNat]? with
    | none => [.importTypeIndex i.moduleName i.fieldName typeIndex]
    | some found =>
      match Host.lookup? i.moduleName i.fieldName with
      | none => [.unknownImport i.moduleName i.fieldName]
      | some host =>
        if found.params = host.params ∧ found.results = host.results then []
        else [.importSignature i.moduleName i.fieldName host.type found]
  | other => [.importNotFunc i.moduleName i.fieldName other.kind]

/-- Everything that is wrong with a module, the most important fault first. -/
def faults (m : Module) (options : Options) : List ValidationError :=
  (if m.Has .start then [.hasStart] else []) ++
    (if m.Has .custom ∧ ¬options.allowCustom then [.hasCustom] else []) ++
    m.missingExports.map .exportMissing ++ m.mainFaults ++ m.memoryFaults ++
    (m.entries Section.imports?).flatMap m.importFaults

end Module

/-! ### The first fault -/

/-- Fails with the first of some faults, and succeeds if there are none. -/
def firstFault {ε : Type} : List ε → Except ε Unit
  | [] => .ok ()
  | e :: _ => .error e

/-- Later faults matter only if there are no earlier ones. -/
theorem firstFault_append {ε : Type} (faults later : List ε) :
    firstFault (faults ++ later) = (firstFault faults).bind fun _ => firstFault later := by
  cases faults <;> rfl

/-- A check of one condition. -/
theorem ite_throw_eq_firstFault {ε : Type} {p : Prop} [Decidable p] (e : ε) :
    (if p then pure () else throw e : Except ε Unit) = firstFault (if p then [] else [e]) := by
  split <;> rfl

/-- Checks that are made one after the other fail with the first fault of all. -/
theorem forM_eq_firstFault {ε α : Type} {check : α → Except ε Unit} {faults : α → List ε}
    (h : ∀ a, check a = firstFault (faults a)) (entries : List α) :
    entries.forM check = firstFault (entries.flatMap faults) := by
  induction entries with
  | nil => rfl
  | cons a later ih =>
    rw [List.flatMap_cons, firstFault_append, ← ih, ← h]
    rfl

namespace Contract

variable {m : Module} {bytes : List UInt8}

/-! ### Single rules -/

/-- The check is a chain of rules, and stops at the first that is broken. -/
theorem check_eq (c : Contract) (options : Options) :
    c.check options =
      (firstFault (if c.hasStart then [.hasStart] else [])).bind fun _ =>
        (firstFault (if c.hasCustom ∧ ¬options.allowCustom then [.hasCustom] else [])).bind fun _ =>
          c.validateExports.bind fun _ => c.validateMain.bind fun _ =>
            c.validateMemory.bind fun _ => c.imports.forM c.validateImport := by
  rw [check]
  split
  · rfl
  · split <;> rfl

theorem find?_ofModule (m : Module) (bytes : List UInt8) (r : RequiredExport) :
    (ofModule m bytes).find? r = m.export? r :=
  Exports.find?_append_select [] (m.entries Section.exports?) r

theorem funcType?_ofModule (m : Module) (bytes : List UInt8) (index : UInt32) :
    (ofModule m bytes).funcType? index = m.funcType? index := by
  -- an index below the number of imported functions is that of an import
  by_cases hindex :
      index.toNat < ((m.entries Section.imports?).filterMap (·.desc.funcType?)).length
  · have hsome := List.getElem?_eq_getElem hindex
    rw [Module.funcType?, Module.typeIndices, List.getElem?_append_left hindex, hsome]
    simp only [funcType?, importedFunctions, ofModule, hsome]
    rfl
  · have hle := Nat.le_of_not_lt hindex
    rw [Module.funcType?, Module.typeIndices, List.getElem?_append_right hle]
    simp only [funcType?, importedFunctions, ofModule, List.getElem?_eq_none hle]
    rfl

/-- The exports that are kept are at most two, under different names, so only missing ones are at
fault. -/
theorem validateExports_ofModule (m : Module) (bytes : List UInt8) :
    (ofModule m bytes).validateExports = firstFault (m.missingExports.map .exportMissing) := by
  have hkept : Exports.Kept (ofModule m bytes).exports :=
    Exports.Kept.nil.select (m.entries Section.exports?)
  have hlength : (ofModule m bytes).exports.length = 2 ↔ ∀ r, m.export? r ≠ none := by
    rw [hkept.length_eq_two_iff]
    exact forall_congr' fun r => by rw [← find?_ofModule m bytes r, find?]
  rw [validateExports, find?_ofModule, find?_ofModule, Module.missingExports]
  cases hmain : m.export? .main with
  | none =>
    rw [if_neg fun h => hlength.mp h .main hmain]
    simp [hmain, firstFault, throw, throwThe, MonadExceptOf.throw]
  | some main =>
    cases hmemory : m.export? .memory with
    | none =>
      rw [if_neg fun h => hlength.mp h .memory hmemory]
      simp [hmain, hmemory, firstFault, throw, throwThe, MonadExceptOf.throw]
    | some memory =>
      have htwo : (ofModule m bytes).exports.length = 2 := by
        refine hlength.mpr fun r => ?_
        cases r
        · exact hmain ▸ Option.some_ne_none main
        · exact hmemory ▸ Option.some_ne_none memory
      rw [if_pos htwo]
      simp [hmain, hmemory, firstFault, pure, Except.pure]

/-- Where there is a `main`, the rule for it reports the faults of `main`. -/
theorem validateMain_ofModule (bytes : List UInt8) {main : Export}
    (hmain : m.export? .main = some main) :
    (ofModule m bytes).validateMain = firstFault m.mainFaults := by
  have hkind : main.kind = .func := by
    have hfound := List.find?_some hmain
    exact (of_decide_eq_true hfound).2
  rw [validateMain, find?_ofModule, Module.mainFaults, hmain]
  simp only [hkind, ne_eq, not_true_eq_false, if_false, funcType?_ofModule]
  cases m.funcType? main.index with
  | none => rfl
  | some type => exact ite_throw_eq_firstFault _

/-- Where there is a `memory`, the rule for it reports the faults of `memory`. -/
theorem validateMemory_ofModule (bytes : List UInt8) {memory : Export}
    (hmemory : m.export? .memory = some memory) :
    (ofModule m bytes).validateMemory = firstFault m.memoryFaults := by
  have hkind : memory.kind = .memory := by
    have hfound := List.find?_some hmemory
    exact (of_decide_eq_true hfound).2
  rw [validateMemory, find?_ofModule, Module.memoryFaults, hmemory]
  simp only [hkind, true_and]
  exact ite_throw_eq_firstFault _

/-- The rule for an import reports the faults of the import. -/
theorem validateImport_ofModule (m : Module) (bytes : List UInt8) (i : Import) :
    (ofModule m bytes).validateImport i = firstFault (m.importFaults i) := by
  rw [validateImport, Module.importFaults]
  cases i.desc with
  | func typeIndex =>
    simp only [ImportDesc.funcType?]
    rw [show (ofModule m bytes).types = m.entries Section.types? from rfl]
    cases (m.entries Section.types?)[typeIndex.toNat]? with
    | none => rfl
    | some found =>
      simp only
      cases Host.lookup? i.moduleName i.fieldName with
      | none => rfl
      | some host => exact ite_throw_eq_firstFault _
  | _ => rfl

/-! ### All rules -/

/-- The rules on the signatures of the required exports apply to modules that have these exports. -/
theorem validate_ofModule (m : Module) (bytes : List UInt8) :
    let c := ofModule m bytes
    (c.validateExports.bind fun _ => c.validateMain.bind fun _ => c.validateMemory.bind fun _ =>
        c.imports.forM c.validateImport) =
      firstFault (m.missingExports.map .exportMissing ++ (m.mainFaults ++ (m.memoryFaults ++
        (m.entries Section.imports?).flatMap m.importFaults))) := by
  intro c
  have himports := forM_eq_firstFault (validateImport_ofModule m bytes)
    (m.entries Section.imports?)
  rw [validateExports_ofModule, firstFault_append]
  cases hmissing : m.missingExports with
  | cons r later => rfl -- no later rule is looked at
  | nil =>
    have hfound : ∀ r : RequiredExport, ∃ e, m.export? r = some e := by
      intro r
      refine Option.ne_none_iff_exists'.mp fun hnone => ?_
      have hmem : r ∈ m.missingExports := by
        rw [Module.missingExports, List.mem_filter]
        exact ⟨by cases r <;> simp, decide_eq_true hnone⟩
      rw [hmissing] at hmem
      cases hmem
    obtain ⟨main, hmain⟩ := hfound .main
    obtain ⟨memory, hmemory⟩ := hfound .memory
    rw [firstFault_append, firstFault_append, validateMain_ofModule bytes hmain,
      validateMemory_ofModule bytes hmemory, ← himports]
    rfl

/-- **Checking the contract of a module** reports the first of the faults of the module. -/
theorem check_ofModule (m : Module) (bytes : List UInt8) (options : Options) :
    (ofModule m bytes).check options = firstFault (m.faults options) := by
  have hstart : (ofModule m bytes).hasStart = true ↔ m.Has .start := decide_eq_true_iff
  have hcustom : (ofModule m bytes).hasCustom = true ↔ m.Has .custom := decide_eq_true_iff
  rw [check_eq, validate_ofModule, Module.faults]
  simp only [hstart, hcustom, List.append_assoc, firstFault_append]

/-- An error of the check is one of the faults of the module. -/
theorem mem_faults_of_check {options : Options} {e : ValidationError}
    (h : (ofModule m bytes).check options = .error e) : e ∈ m.faults options := by
  rw [check_ofModule] at h
  cases hfaults : m.faults options with
  | nil =>
    rw [hfaults] at h
    cases h
  | cons fault later =>
    rw [hfaults] at h
    cases h
    exact List.mem_cons_self

example : ({} : Module).faults {} = [.exportMissing .main, .exportMissing .memory] := by decide

end Contract

end WasmContract
