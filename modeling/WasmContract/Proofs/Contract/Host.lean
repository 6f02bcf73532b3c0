import Mathlib.Data.List.Nodup
import WasmContract.Contract.Host

/-!
# Looking up host functions

A name stands for at most one function of a host module, so looking up a name finds exactly the
function that has it.
-/

namespace WasmContract.Host

variable {moduleName fieldName : String} {host : HostFunc}

/-- Only `debug` and `ethereum` are host modules. -/
theorem mem_functions_iff : host ∈ functions moduleName ↔
    (moduleName = "debug" ∧ host ∈ debug) ∨ (moduleName = "ethereum" ∧ host ∈ ethereum) := by
  unfold functions
  split
  · rename_i h
    subst h
    simp
  · split
    · rename_i h
      subst h
      simp
    · simp_all

/-- No two functions of a host module have the same name. -/
theorem nodup_names (moduleName : String) : ((functions moduleName).map HostFunc.name).Nodup := by
  unfold functions
  split
  · decide
  · split
    · decide
    · exact .nil

/-- **Looking up a name** finds the function that has it. -/
theorem lookup?_eq_some_iff : lookup? moduleName fieldName = some host ↔ host.name = fieldName ∧
    ((moduleName = "debug" ∧ host ∈ debug) ∨ (moduleName = "ethereum" ∧ host ∈ ethereum)) := by
  rw [← mem_functions_iff, lookup?]
  constructor
  · intro h
    exact ⟨by simpa using List.find?_some h, List.mem_of_find?_eq_some h⟩
  · rintro ⟨rfl, hmem⟩
    cases hfound : (functions moduleName).find? fun f => f.name = host.name with
    | none =>
      rw [List.find?_eq_none] at hfound
      exact absurd (decide_eq_true rfl) (hfound host hmem)
    | some f =>
      have hname : f.name = host.name := by simpa using List.find?_some hfound
      have hf := List.mem_of_find?_eq_some hfound
      exact congrArg some (List.inj_on_of_nodup_map (nodup_names moduleName) hf hmem hname)

end WasmContract.Host
