import Mathlib.Data.List.Induction
import WasmContract.Proofs.Exports.Keep

/-!
# The first exports

What is kept from all export entries of a module can be said without going through them:
`Exports.firsts` consists of the first entry with the name and the kind of each required export, in
the order in which these entries stand. An entry of the right name and the wrong kind does not
count, wherever it stands.

Selection gives just these entries (`Exports.select_eq_firsts`).
-/

namespace WasmContract.Exports

variable {entries : List Export} {e : Export} {r : RequiredExport} {i : Nat}

/-- The place of the first entry with the name and the kind of a required export. -/
def place? (entries : List Export) (r : RequiredExport) : Option Nat :=
  entries.findIdx? fun e => e.name = r.name ∧ e.kind = r.kind

/-- The first entries with the name and the kind of the required exports, in the order of the
entries. -/
def firsts (entries : List Export) : List Export :=
  (entries.zipIdx.filter fun (_, i) =>
    place? entries .main = some i ∨ place? entries .memory = some i).map Prod.fst

example : firsts [⟨"main", .global, 0⟩, ⟨"memory", .memory, 1⟩, ⟨"main", .func, 2⟩,
    ⟨"memory", .memory, 3⟩] = [⟨"memory", .memory, 1⟩, ⟨"main", .func, 2⟩] := by decide

/-! ### One more entry -/

/-- An entry behind others takes no place among them. -/
theorem place?_concat_of_lt (h : i < entries.length) :
    place? (entries ++ [e]) r = some i ↔ place? entries r = some i := by
  rw [place?, List.findIdx?_append, ← place?]
  cases place? entries r with
  | none =>
    -- a place in the single entry behind the others would not lie below their number
    rw [Option.none_or, Option.map_eq_some_iff]
    simp only [reduceCtorEq, iff_false, not_exists, not_and]
    intro j _
    omega
  | some j => rw [Option.some_or]

/-- An entry behind others is the first of its name and kind if none of the others has them. -/
theorem place?_concat_eq_some_length :
    place? (entries ++ [e]) r = some entries.length ↔
      (e.name = r.name ∧ e.kind = r.kind) ∧ place? entries r = none := by
  rw [place?, List.findIdx?_append, ← place?]
  cases hplace : place? entries r with
  | none => by_cases he : e.name = r.name ∧ e.kind = r.kind <;> simp [he]
  | some j =>
    obtain ⟨hlt, -⟩ := List.findIdx?_eq_some_iff_getElem.mp hplace
    simp only [Option.some_or, Option.some.injEq, reduceCtorEq, and_false, iff_false]
    omega

/-- An entry behind others is added if it is the first of its name and kind. -/
theorem firsts_concat (entries : List Export) (e : Export) :
    firsts (entries ++ [e]) = firsts entries ++
      if place? (entries ++ [e]) .main = some entries.length ∨
        place? (entries ++ [e]) .memory = some entries.length then [e] else [] := by
  have hfront : ∀ p ∈ entries.zipIdx,
      (place? (entries ++ [e]) .main = some p.2 ∨ place? (entries ++ [e]) .memory = some p.2) ↔
        (place? entries .main = some p.2 ∨ place? entries .memory = some p.2) := by
    intro p hp
    have hlt := List.snd_lt_of_mem_zipIdx hp
    rw [place?_concat_of_lt hlt, place?_concat_of_lt hlt]
  rw [firsts, List.zipIdx_append, List.filter_append, List.map_append,
    List.filter_congr fun p hp => decide_eq_decide.mpr (hfront p hp), ← firsts]
  congr 1
  simp only [List.zipIdx_singleton, List.filter_cons, List.filter_nil, Nat.zero_add,
    decide_eq_true_eq]
  split <;> rfl

/-! ### Selection -/

/-- An entry behind others is selected if it is the first of its name and kind. -/
theorem new_iff_place? (entries : List Export) (e : Export) :
    (e.Required ∧ ∀ k ∈ select [] entries, k.name ≠ e.name) ↔
      place? (entries ++ [e]) .main = some entries.length ∨
        place? (entries ++ [e]) .memory = some entries.length := by
  have hnone : ∀ r : RequiredExport,
      (∀ k ∈ select [] entries, k.name ≠ r.name) ↔ place? entries r = none := by
    intro r
    have hfind := find?_append_select [] entries r
    rw [List.nil_append] at hfind
    rw [← find?_eq_none_iff, hfind, place?, List.findIdx?_eq_none_iff]
    simp [find?]
  constructor
  · rintro ⟨⟨r, hname, hkind⟩, hnew⟩
    rw [hname] at hnew
    have hplace := place?_concat_eq_some_length.mpr ⟨⟨hname, hkind⟩, (hnone r).mp hnew⟩
    cases r with
    | main => exact .inl hplace
    | memory => exact .inr hplace
  · intro hplace
    obtain ⟨r, hr⟩ : ∃ r, place? (entries ++ [e]) r = some entries.length :=
      hplace.elim (fun h => ⟨.main, h⟩) fun h => ⟨.memory, h⟩
    obtain ⟨he, hr⟩ := place?_concat_eq_some_length.mp hr
    exact ⟨⟨r, he⟩, he.1.symm ▸ (hnone r).mpr hr⟩

/-- **Selection gives the first exports.** -/
theorem select_eq_firsts (entries : List Export) : select [] entries = firsts entries := by
  induction entries using List.reverseRecOn with
  | nil => rfl
  | append_singleton front e ih =>
    rw [select_append, firsts_concat, List.nil_append, ih]
    congr 1
    rw [← ih, select, select]
    exact if_congr (new_iff_place? front e) rfl rfl

end WasmContract.Exports
