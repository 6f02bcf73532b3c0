import WasmContract.Proofs.Contract.Exports
import WasmContract.Proofs.FuncType
import WasmContract.Proofs.Module.RoundTrip

/-!
# Function types in errors

An import is refused for its type only if that type differs from the one that the host gives to the
function, and then the two texts in the error differ as well, since a function type can be told from
its text (`FuncType.text_injective`). Types are compared by their lists alone. For types that were
read this is equality, because all of them have the same constructor
(`function_types_are_told_apart`).
-/

namespace WasmContract

/-- The two types in an error about the type of an import differ. -/
def ValidationError.TypesDiffer : ValidationError → Prop
  | importSignature _ _ expected found => expected ≠ found
  | _ => True

variable {bytes : List UInt8} {m : Module} {t : FuncType}

/-- A fault about the type of an import names two types that differ. -/
theorem Module.typesDiffer_importFaults (i : Import) : ∀ e ∈ m.importFaults i, e.TypesDiffer := by
  unfold importFaults
  split
  · split
    · exact List.forall_mem_singleton.mpr trivial
    · split
      · exact List.forall_mem_singleton.mpr trivial
      · split
        · exact List.forall_mem_nil _
        · rename_i host _ hmatches
          refine List.forall_mem_singleton.mpr fun heq => hmatches ?_
          rw [← heq]
          exact ⟨rfl, rfl⟩
  · exact List.forall_mem_singleton.mpr trivial

/-- No contract is refused for the type of an import that is as expected. -/
theorem Contract.typesDiffer_of_validate {c : Contract} {options : Options} {e : ValidationError}
    (hread : read bytes = .ok c) (h : c.validate options = .error e) : e.TypesDiffer := by
  obtain ⟨m, -, hc⟩ := eq_ofModule_of_read hread
  rw [validate, outcome_validateLogged, hc] at h
  exact Module.forall_mem_faults trivial trivial (fun _ => trivial) (fun _ _ _ => trivial)
    (fun i _ => Module.typesDiffer_importFaults i) e (mem_faults_of_check h)

/-- A function type with the usual constructor is determined by its lists. -/
theorem FuncType.matches_iff_eq (h : t.form = .func) (params results : List ValueType) :
    t.Matches params results ↔ t = { params, results } := by
  obtain ⟨form, ps, rs⟩ := t
  obtain rfl : form = .func := h
  simp

/-- All function types of a module have the same constructor. -/
theorem Module.form_of_mem_types (hdecode : decode bytes = .ok m)
    (h : t ∈ m.entries Section.types?) : t.form = .func := by
  obtain ⟨s, hs, ht⟩ := List.mem_flatMap.mp h
  have hwell := (wellFormed_of_decode hdecode).1 s hs
  cases s with
  | types entries => exact (hwell t ht).1
  | _ => cases ht

/-- **Function types are told apart.** Two function types with the same text are the same, whatever
their constructors and however long their lists are. When a contract is refused for the type of an
import, the type that was found and the one that was expected differ, and so do their texts. And a
function type that was read, by itself or in a module, has the signature of given lists only if it
is the function type of these lists. -/
theorem function_types_are_told_apart :
    (∀ t u : FuncType, t.text = u.text → t = u) ∧
    (∀ bytes c options moduleName fieldName expected found, Contract.read bytes = .ok c →
      c.validate options = .error (.importSignature moduleName fieldName expected found) →
        expected ≠ found ∧ expected.text ≠ found.text) ∧
    (∀ bytes t rest, FuncType.reader bytes = .ok (t, rest) →
      ∀ params results, t.Matches params results ↔ t = { params, results }) ∧
    ∀ bytes m, Module.decode bytes = .ok m → ∀ t ∈ m.entries Section.types?,
      ∀ params results, t.Matches params results ↔ t = { params, results } := by
  refine ⟨fun _ _ h => FuncType.text_injective h, ?_, ?_, ?_⟩
  · intro bytes c options moduleName fieldName expected found hread hvalidate
    have hdiffer : expected ≠ found := Contract.typesDiffer_of_validate hread hvalidate
    exact ⟨hdiffer, FuncType.text_injective.ne hdiffer⟩
  · intro bytes t rest hread
    exact FuncType.matches_iff_eq (FuncType.ensures hread).1.1
  · intro bytes m hdecode t ht
    exact FuncType.matches_iff_eq (Module.form_of_mem_types hdecode ht)

/-- A contract that pays for its work by a host function, but imports it with the type of its
function `main`. -/
theorem function_types_are_told_apart_use_gas :
    let bytes : List UInt8 := [0x00, 0x61, 0x73, 0x6d, 0x01, 0x00, 0x00, 0x00,
      0x01, 0x04, 0x01, 0x60, 0x00, 0x00,
      0x02, 0x13, 0x01, 0x08, 0x65, 0x74, 0x68, 0x65, 0x72, 0x65, 0x75, 0x6d,
      0x06, 0x75, 0x73, 0x65, 0x47, 0x61, 0x73, 0x00, 0x00,
      0x03, 0x02, 0x01, 0x00, 0x05, 0x03, 0x01, 0x00, 0x01,
      0x07, 0x11, 0x02, 0x04, 0x6d, 0x61, 0x69, 0x6e, 0x00, 0x01,
      0x06, 0x6d, 0x65, 0x6d, 0x6f, 0x72, 0x79, 0x02, 0x00, 0x0a, 0x04, 0x01, 0x02, 0x00, 0x0b]
    let c : Contract := {
      types := [{}]
      imports := [⟨"ethereum", "useGas", .func 0⟩]
      functions := [0]
      exports := [⟨"main", .func, 1⟩, ⟨"memory", .memory, 0⟩]
      bytes }
    Contract.read bytes = .ok c ∧
      c.validate = .error (.importSignature "ethereum" "useGas" { params := [.i64] } {}) ∧
      "(func (param i64))" ≠ "(func)" ∧
      FuncType.reader [0x60, 0x00, 0x00, 0x0b] = .ok ({}, [0x0b]) ∧
      (({} : FuncType).Matches [.i64] [] ↔ ({} : FuncType) = { params := [.i64] }) := by
  intro bytes c
  have hread : Contract.read bytes = .ok c := by decide +kernel
  have hvalidate : c.validate =
      .error (.importSignature "ethereum" "useGas" { params := [.i64] } {}) := by
    decide +kernel
  have hentry : FuncType.reader [0x60, 0x00, 0x00, 0x0b] = .ok ({}, [0x0b]) := by decide +kernel
  obtain ⟨-, htexts, hmatches, -⟩ := function_types_are_told_apart
  exact ⟨hread, hvalidate, (htexts bytes c {} _ _ _ _ hread hvalidate).2, hentry,
    hmatches _ _ _ hentry [.i64] []⟩

end WasmContract
