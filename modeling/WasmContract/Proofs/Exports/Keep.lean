import WasmContract.Contract.Exports

/-!
# The exports that are kept

Which entries are kept from a module is a matter of all its export sections. `Exports.select` says
it without the early end of `Exports.keep`: an entry is kept when it is a required export and no
entry before it was kept under its name. The two agree (`keep_eq_select`), because the entries kept
at any time are required exports of different names (`Kept`), so that two of them leave nothing to
be kept.

Selection goes through a stream section by section (`select_append`) and is stable on its own
result (`select_select`).
-/

namespace WasmContract

namespace RequiredExport

/-- The required exports have different names. -/
theorem name_injective {r r' : RequiredExport} (h : r.name = r'.name) : r = r' := by
  cases r <;> cases r' <;> first | rfl | exact absurd h (by decide)

/-- Of three required exports, two are the same. -/
theorem eq_of_three (a b c : RequiredExport) : a = b ∨ a = c ∨ b = c := by
  cases a <;> cases b <;> cases c <;> decide

end RequiredExport

namespace Exports

variable {kept entries : List Export} {e : Export}

/-- The entries to be kept from a section, given those kept from earlier ones: required exports
under whose name nothing has been kept before. -/
def select (kept : List Export) : List Export → List Export
  | [] => []
  | e :: later =>
    if e.Required ∧ ∀ k ∈ kept, k.name ≠ e.name then e :: select (kept ++ [e]) later
    else select kept later

/-! ### Selecting through a stream -/

/-- Selection goes on behind some entries with those that were kept of them. -/
theorem select_append (kept entries later : List Export) :
    select kept (entries ++ later) =
      select kept entries ++ select (kept ++ select kept entries) later := by
  induction entries generalizing kept with
  | nil => simp [select]
  | cons e others ih =>
    rw [List.cons_append, select, select]
    split
    · rw [ih, List.cons_append, List.append_assoc, List.singleton_append]
    · rw [ih]

/-- Entries are kept in their order, and none is added. -/
theorem select_sublist (kept entries : List Export) : (select kept entries).Sublist entries := by
  induction entries generalizing kept with
  | nil => exact .slnil
  | cons e others ih =>
    rw [select]
    split
    · exact (ih _).cons_cons e
    · exact (ih kept).cons e

/-- Everything is kept of a stream only if everything is kept of each of its parts. -/
theorem select_append_eq_self_iff (kept entries later : List Export) :
    select kept (entries ++ later) = entries ++ later ↔
      select kept entries = entries ∧ select (kept ++ select kept entries) later = later := by
  have hentries := select_sublist kept entries
  have hlater := select_sublist (kept ++ select kept entries) later
  rw [select_append]
  refine ⟨fun heq => ?_, fun ⟨heq, heq'⟩ => heq'.symm ▸ heq.symm ▸ rfl⟩
  have hlength := congrArg List.length heq
  have hle := hentries.length_le
  have hle' := hlater.length_le
  rw [List.length_append, List.length_append] at hlength
  exact ⟨hentries.eq_of_length (by omega), hlater.eq_of_length (by omega)⟩

/-- What has been selected is all selected again. -/
theorem select_select (kept entries : List Export) :
    select kept (select kept entries) = select kept entries := by
  induction entries generalizing kept with
  | nil => rfl
  | cons e others ih =>
    rw [select]
    split
    · rename_i hnew
      rw [select, if_pos hnew, ih]
    · exact ih kept

/-! ### Looking up what was kept -/

theorem find?_eq_none_iff {name : String} :
    find? entries name = none ↔ ∀ k ∈ entries, k.name ≠ name := by
  simp [find?]

/-- Under the name of a required export, the first entry of that name and kind is kept, unless an
entry was kept under the name before. -/
theorem find?_append_select (kept entries : List Export) (r : RequiredExport) :
    find? (kept ++ select kept entries) r.name =
      (find? kept r.name).or (entries.find? fun e => e.name = r.name ∧ e.kind = r.kind) := by
  induction entries generalizing kept with
  | nil => simp [select]
  | cons e later ih =>
    rw [select]
    split
    · rename_i hnew
      obtain ⟨⟨r', hname, hkind⟩, hnone⟩ := hnew
      rw [← List.singleton_append, ← List.append_assoc, ih, find?, List.find?_append, ← find?]
      by_cases hr : r' = r
      · subst hr
        have hkept := find?_eq_none_iff.mpr hnone
        rw [hname] at hkept
        simp [hkept, hname, hkind]
      · have hne : ¬e.name = r.name :=
          fun h => hr (RequiredExport.name_injective (hname.symm.trans h))
        simp [hne]
    · rename_i hnew
      rw [ih, List.find?_cons]
      by_cases he : e.name = r.name ∧ e.kind = r.kind
      · -- the entry is required, so it is passed over because its name was kept before
        have hkept : find? kept r.name ≠ none := by
          intro hnone
          rw [← he.1] at hnone
          exact hnew ⟨⟨r, he⟩, find?_eq_none_iff.mp hnone⟩
        obtain ⟨k, hk⟩ := Option.ne_none_iff_exists'.mp hkept
        rw [hk, Option.some_or, Option.some_or]
      · simp [he]

/-! ### The entries kept at any time -/

/-- All entries are required exports, and they have different names. -/
structure Kept (entries : List Export) : Prop where
  /-- Every entry is a required export. -/
  required : ∀ e ∈ entries, e.Required
  /-- No two entries have the same name. -/
  distinct : entries.Pairwise fun a b => a.name ≠ b.name

theorem Kept.nil : Kept [] := ⟨by simp, .nil⟩

/-- A required export under a new name may be added. -/
theorem Kept.concat (h : Kept kept) (he : e.Required) (hnew : ∀ k ∈ kept, k.name ≠ e.name) :
    Kept (kept ++ [e]) where
  required := by
    intro k hk
    rcases List.mem_append.mp hk with hk | hk
    · exact h.required k hk
    · rwa [List.mem_singleton.mp hk]
  distinct := by
    refine List.pairwise_append.mpr ⟨h.distinct, List.pairwise_singleton _ _, fun k hk e' he' => ?_⟩
    rw [List.mem_singleton.mp he']
    exact hnew k hk

/-- The entries kept from a section may be added to those before. -/
theorem Kept.append_select (h : Kept kept) (entries : List Export) :
    Kept (kept ++ select kept entries) := by
  induction entries generalizing kept with
  | nil => rwa [select, List.append_nil]
  | cons e others ih =>
    rw [select]
    split
    · rename_i hnew
      have hconcat := ih (h.concat hnew.1 hnew.2)
      rwa [List.append_assoc, List.singleton_append] at hconcat
    · exact ih h

protected theorem Kept.select (h : Kept kept) (entries : List Export) :
    Kept (Exports.select kept entries) where
  required := fun e he => (h.append_select entries).required e (List.mem_append_right kept he)
  distinct := (List.pairwise_append.mp (h.append_select entries).distinct).2.1

/-- Once two entries are kept, every required export has been. -/
theorem Kept.mem_name_of_two_le (h : Kept kept) (hlength : 2 ≤ kept.length) (he : e.Required) :
    ∃ k ∈ kept, k.name = e.name := by
  obtain ⟨a, b, others, rfl⟩ : ∃ a b others, kept = a :: b :: others := by
    match kept, hlength with
    | a :: b :: others, _ => exact ⟨a, b, others, rfl⟩
  obtain ⟨ra, ha, -⟩ := h.required a (by simp)
  obtain ⟨rb, hb, -⟩ := h.required b (by simp)
  obtain ⟨re, he, -⟩ := he
  have hab : a.name ≠ b.name := (List.pairwise_cons.mp h.distinct).1 b (by simp)
  -- the two entries kept are required exports of different names, so one of them is this one
  rcases RequiredExport.eq_of_three ra rb re with rfl | rfl | rfl
  · exact absurd (ha.trans hb.symm) hab
  · exact ⟨a, by simp, ha.trans he.symm⟩
  · exact ⟨b, by simp, hb.trans he.symm⟩

/-- There are two required exports, so no more than two are kept. -/
theorem Kept.length_le (h : Kept kept) : kept.length ≤ 2 := by
  cases kept with
  | nil => simp
  | cons a others =>
    have hothers : Kept others :=
      ⟨fun k hk => h.required k (List.mem_cons_of_mem a hk), (List.pairwise_cons.mp h.distinct).2⟩
    refine Nat.le_of_not_lt fun hlong => ?_
    rw [List.length_cons] at hlong
    obtain ⟨k, hk, hname⟩ := hothers.mem_name_of_two_le (by omega) (h.required a (by simp))
    exact (List.pairwise_cons.mp h.distinct).1 k hk hname.symm

/-- Two entries are kept exactly when every required export has been found. -/
theorem Kept.length_eq_two_iff (h : Kept kept) :
    kept.length = 2 ↔ ∀ r : RequiredExport, find? kept r.name ≠ none := by
  constructor
  · intro hlength r hnone
    obtain ⟨k, hk, hname⟩ := h.mem_name_of_two_le (Nat.le_of_eq hlength.symm)
      (e := ⟨r.name, r.kind, 0⟩) ⟨r, rfl, rfl⟩
    exact find?_eq_none_iff.mp hnone k hk hname
  · intro hfound
    have hmem : ∀ r : RequiredExport, ∃ k ∈ kept, k.name = r.name := by
      intro r
      obtain ⟨k, hk⟩ := Option.ne_none_iff_exists'.mp (hfound r)
      exact ⟨k, List.mem_of_find?_eq_some hk, by simpa using List.find?_some hk⟩
    obtain ⟨a, ha, hmain⟩ := hmem .main
    obtain ⟨b, hb, hmemory⟩ := hmem .memory
    refine Nat.le_antisymm h.length_le (Nat.lt_of_not_le fun hshort => ?_)
    match kept, hshort with
    | [], _ => cases ha
    | [k], _ =>
      rw [List.mem_singleton.mp ha] at hmain
      rw [List.mem_singleton.mp hb, hmain] at hmemory
      exact absurd hmemory (by decide)

/-- After two entries nothing more is selected. -/
theorem Kept.select_eq_nil (h : Kept kept) (hlength : 2 ≤ kept.length) (entries : List Export) :
    select kept entries = [] := by
  induction entries with
  | nil => rfl
  | cons e others ih =>
    rw [select, if_neg, ih]
    rintro ⟨he, hnew⟩
    obtain ⟨k, hk, hname⟩ := h.mem_name_of_two_le hlength he
    exact hnew k hk hname

/-- **The early end loses nothing.** -/
theorem keep_eq_select (h : Kept kept) (entries : List Export) :
    keep kept entries = select kept entries := by
  induction entries generalizing kept with
  | nil => rfl
  | cons e others ih =>
    rw [keep]
    split
    · -- the early end: nothing would be kept any more
      rename_i hlength
      exact (h.select_eq_nil hlength (e :: others)).symm
    · simp only [find?_eq_none_iff, select]
      split
      · rename_i hnew
        rw [ih (h.concat hnew.1 hnew.2)]
      · exact ih h

end Exports

end WasmContract
