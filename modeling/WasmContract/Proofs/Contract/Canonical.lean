import Mathlib.Data.List.ReduceOption
import WasmContract.Proofs.Exports.Encode
import WasmContract.Proofs.Module.Exact

/-!
# Canonical sections

What remains of the sections of a module in canonical form: nothing of start and custom sections,
the exports that are kept of export sections, and everything of all others. `Section.remainders`
says so for the sections themselves and `FramedSection.remainders` for the frames that hold them. An
export section gets a new frame, and every other section stays in the frame it was found in.

Frames that hold their sections exactly remain so (`FramedSection.exact_canonical`), and what
remains stays as it is when the same is done to it again (`FramedSection.canonical_canonical`).
-/

namespace WasmContract

variable {kept : List Export}

theorem reduceOption_cons {α : Type} (o : Option α) (later : List (Option α)) :
    (o :: later).reduceOption = o.toList ++ later.reduceOption := by
  cases o <;> simp

namespace Section

variable {s t : Section}

/-- The exports to be kept from a section, given those kept from earlier ones. -/
def newExports (kept : List Export) (s : Section) : List Export :=
  Exports.select kept (s.entries exports?)

/-- What remains of a section in canonical form, given the exports kept from earlier sections. -/
def remainder (kept : List Export) : Section → Option Section
  | custom _ | start _ => none
  | exports entries =>
    let new := Exports.select kept entries
    if new = [] then none else some (exports new)
  | s => some s

/-- What remains of sections that follow one another. -/
def remainders (kept : List Export) : List Section → List (Option Section)
  | [] => []
  | s :: later => s.remainder kept :: remainders (kept ++ s.newExports kept) later

/-- The three things that can happen to a section: it is dropped and had nothing to be kept, or it
remains as it is, or it is an export section and is cut down. -/
theorem remainder_cases (kept : List Export) (s : Section) :
    (s.remainder kept = none ∧ s.newExports kept = []) ∨
      (s.remainder kept = some s ∧ s.exports? = none) ∨
      ∃ entries, s = exports entries ∧ Exports.select kept entries ≠ [] ∧
        s.remainder kept = some (exports (Exports.select kept entries)) := by
  cases s with
  | custom content => exact .inl ⟨rfl, rfl⟩
  | start function => exact .inl ⟨rfl, rfl⟩
  | exports entries =>
    by_cases hnew : Exports.select kept entries = []
    · exact .inl ⟨if_pos hnew, hnew⟩
    · exact .inr (.inr ⟨entries, rfl, hnew, if_neg hnew⟩)
  | _ => exact .inr (.inl ⟨rfl, rfl⟩)

theorem newExports_of_exports?_eq_none (h : s.exports? = none) : s.newExports kept = [] := by
  rw [newExports, entries, h]
  rfl

/-- A section that is dropped had nothing to be kept. -/
theorem newExports_of_remainder_eq_none (h : s.remainder kept = none) :
    s.newExports kept = [] := by
  rcases remainder_cases kept s with ⟨-, hnew⟩ | ⟨hs, -⟩ | ⟨_, -, -, hs⟩
  · exact hnew
  · cases hs.symm.trans h
  · cases hs.symm.trans h

/-- What remains of a section is not reduced any further, and keeps the same exports. -/
theorem remainder_of_remainder (h : s.remainder kept = some t) :
    t.remainder kept = some t ∧ t.newExports kept = s.newExports kept := by
  rcases remainder_cases kept s with ⟨hs, -⟩ | ⟨hs, -⟩ | ⟨entries, rfl, hnew, hs⟩
  · cases hs.symm.trans h
  · cases hs.symm.trans h
    exact ⟨hs, rfl⟩
  · -- the entries that were kept are kept again
    cases hs.symm.trans h
    have hselect := Exports.select_select kept entries
    refine ⟨?_, hselect⟩
    simp only [remainder, hselect, if_neg hnew]

/-- Neither a start section nor a custom section remains. -/
theorem kind_of_remainder (h : s.remainder kept = some t) : t.kind ≠ .start ∧ t.kind ≠ .custom := by
  cases s with
  | exports entries =>
    simp only [remainder] at h
    split at h <;> cases h
    exact ⟨nofun, nofun⟩
  | custom content => cases h
  | start function => cases h
  | _ =>
    cases h
    exact ⟨nofun, nofun⟩

theorem kind_of_mem_remainders {sections : List Section}
    (h : t ∈ (remainders kept sections).reduceOption) : t.kind ≠ .start ∧ t.kind ≠ .custom := by
  rw [List.reduceOption_mem_iff] at h
  induction sections generalizing kept with
  | nil => cases h
  | cons s later ih =>
    rcases List.mem_cons.mp h with h | h
    · exact kind_of_remainder h.symm
    · exact ih h

/-! ### The entries that remain -/

section Entries

variable {α : Type} {view : Section → Option (List α)}

/-- A view of sections that remain as they are. -/
structure Stable (view : Section → Option (List α)) : Prop where
  /-- It does not see custom sections. -/
  custom : ∀ content, view (.custom content) = none
  /-- It does not see start sections. -/
  start : ∀ function, view (.start function) = none
  /-- It does not see export sections. -/
  exports : ∀ entries, view (.exports entries) = none

theorem stable_types? : Stable types? := ⟨fun _ => rfl, fun _ => rfl, fun _ => rfl⟩

theorem stable_imports? : Stable imports? := ⟨fun _ => rfl, fun _ => rfl, fun _ => rfl⟩

theorem stable_functions? : Stable functions? := ⟨fun _ => rfl, fun _ => rfl, fun _ => rfl⟩

/-- A stable view sees of what remains of a section all that it sees of the section. -/
theorem Stable.entries_remainder (h : Stable view) (kept : List Export) (s : Section) :
    (s.remainder kept).elim [] (entries view) = s.entries view := by
  cases s with
  | custom content => simp [remainder, entries, h.custom]
  | start function => simp [remainder, entries, h.start]
  | exports old =>
    rw [remainder]
    split <;> simp [entries, h.exports]
  | _ => rfl

/-- The entries that a stable view sees all remain. -/
theorem Stable.flatMap_remainders (h : Stable view) (kept : List Export) (sections : List Section) :
    (remainders kept sections).reduceOption.flatMap (entries view) =
      sections.flatMap (entries view) := by
  induction sections generalizing kept with
  | nil => rfl
  | cons s later ih =>
    have hs := h.entries_remainder kept s
    rw [remainders, List.flatMap_cons, ← ih (kept ++ s.newExports kept), ← hs]
    cases s.remainder kept <;> simp

end Entries

/-- The exports that remain are those that are kept from all sections. -/
theorem flatMap_exports?_remainders (kept : List Export) (sections : List Section) :
    (remainders kept sections).reduceOption.flatMap (entries exports?) =
      Exports.select kept (sections.flatMap (entries exports?)) := by
  induction sections generalizing kept with
  | nil => rfl
  | cons s later ih =>
    have hs : (s.remainder kept).elim [] (entries exports?) = s.newExports kept := by
      rcases remainder_cases kept s with ⟨hs, hnew⟩ | ⟨hs, hview⟩ | ⟨old, rfl, -, hs⟩
      · rw [hs, hnew]
        rfl
      · rw [hs, newExports_of_exports?_eq_none hview, Option.elim_some, entries, hview]
        rfl
      · rw [hs]
        rfl
    rw [remainders, List.flatMap_cons, Exports.select_append, ← newExports, ← ih, ← hs]
    cases s.remainder kept <;> simp

end Section

/-! ### Sections in their frames -/

/-- An export section that is written anew is all that its frame holds. -/
theorem Exports.Kept.exact {entries : List Export} (h : Exports.Kept entries) :
    FramedSection.Exact ⟨(Section.exports entries).frame, .exports entries⟩ where
  intact := Exports.intact_frame h.portable.toWithinLimits
  decode := Exports.decode_frame h.portable

namespace FramedSection

variable {p q : FramedSection} {parts : List FramedSection}

/-- What remains of a section, in the frame in which it was found; an export section is written
anew. -/
def remainder (kept : List Export) (p : FramedSection) : Option FramedSection :=
  (p.content.remainder kept).map fun s =>
    ⟨if s.kind = .exports then s.frame else p.frame, s⟩

/-- What remains of sections that follow one another, in frames. -/
def remainders (kept : List Export) : List FramedSection → List (Option FramedSection)
  | [] => []
  | p :: later => p.remainder kept :: remainders (kept ++ p.content.newExports kept) later

/-- Each section has a place among the remainders, be it empty. -/
theorem length_remainders (kept : List Export) (parts : List FramedSection) :
    (remainders kept parts).length = parts.length := by
  induction parts generalizing kept with
  | nil => rfl
  | cons p later ih => rw [remainders, List.length_cons, List.length_cons, ih]

/-- Of earlier sections, only the exports kept from them matter to what remains of later ones. -/
theorem remainders_append (kept : List Export) (parts later : List FramedSection) :
    remainders kept (parts ++ later) =
      remainders kept parts ++ remainders (kept ++ Exports.select kept
        (parts.flatMap fun p => p.content.entries Section.exports?)) later := by
  induction parts generalizing kept with
  | nil => simp [remainders, Exports.select]
  | cons p others ih =>
    rw [List.cons_append, remainders, ih, remainders, List.cons_append, List.flatMap_cons,
      Exports.select_append, ← List.append_assoc]
    rfl

/-- The frames play no part in what remains of the sections. -/
theorem map_content_remainders (kept : List Export) (parts : List FramedSection) :
    (remainders kept parts).map (Option.map (·.content)) =
      Section.remainders kept (parts.map (·.content)) := by
  induction parts generalizing kept with
  | nil => rfl
  | cons p later ih =>
    have hp : (p.remainder kept).map (·.content) = p.content.remainder kept := by
      rw [remainder, Option.map_map]
      exact Option.map_id'
    rw [remainders, List.map_cons, hp, ih, List.map_cons, Section.remainders]

theorem map_content_reduceOption (kept : List Export) (parts : List FramedSection) :
    (remainders kept parts).reduceOption.map (·.content) =
      (Section.remainders kept (parts.map (·.content))).reduceOption := by
  rw [← map_content_remainders, List.reduceOption_map]

/-- The three things that can happen to a section in its frame: it is dropped, or it remains in its
frame, or it is an export section and is written anew. -/
theorem remainder_cases (kept : List Export) (p : FramedSection) :
    (p.remainder kept = none ∧ p.content.newExports kept = []) ∨
      (p.remainder kept = some p ∧ p.content.exports? = none) ∨
      ∃ entries, p.content = .exports entries ∧ Exports.select kept entries ≠ [] ∧
        p.remainder kept = some ⟨(Section.exports (Exports.select kept entries)).frame,
          .exports (Exports.select kept entries)⟩ := by
  rcases Section.remainder_cases kept p.content with ⟨hs, hnew⟩ | ⟨hs, hview⟩ |
    ⟨entries, hcontent, hnew, hs⟩
  · exact .inl ⟨by rw [remainder, hs, Option.map_none], hnew⟩
  · have hkind : p.content.kind ≠ .exports := by
      cases hcontent : p.content <;> simp_all [Section.exports?, Section.kind]
    refine .inr (.inl ⟨?_, hview⟩)
    rw [remainder, hs, Option.map_some, if_neg hkind]
  · refine .inr (.inr ⟨entries, hcontent, hnew, ?_⟩)
    rw [remainder, hs]
    rfl

/-- What remains of a section is all that its frame holds, whether the frame is new or not. -/
theorem Exact.of_remainder (hp : p.Exact) (hkept : Exports.Kept kept)
    (h : p.remainder kept = some q) : q.Exact := by
  rcases remainder_cases kept p with ⟨hnone, -⟩ | ⟨hsame, -⟩ | ⟨entries, -, -, hnew⟩
  · cases hnone.symm.trans h
  · cases hsame.symm.trans h
    exact hp
  · cases hnew.symm.trans h
    exact (hkept.select entries).exact

/-- Frames that hold their sections exactly remain so. -/
theorem exact_of_mem_remainders (hkept : Exports.Kept kept) (h : ∀ p ∈ parts, p.Exact) :
    ∀ q ∈ (remainders kept parts).reduceOption, q.Exact := by
  induction parts generalizing kept with
  | nil => simp [remainders]
  | cons p later ih =>
    -- the exports kept so far remain different, so each section written anew is within the limits
    have hlater := ih (hkept.append_select (p.content.entries Section.exports?))
      fun q hq => h q (List.mem_cons_of_mem p hq)
    intro q hq
    rw [List.reduceOption_mem_iff, remainders] at hq
    rcases List.mem_cons.mp hq with hq | hq
    · exact (h p List.mem_cons_self).of_remainder hkept hq.symm
    · exact hlater q (List.reduceOption_mem_iff.mpr hq)

/-- What remains of a section in its frame is not reduced any further. -/
theorem remainder_of_remainder (h : p.remainder kept = some q) :
    q.remainder kept = some q ∧ q.content.newExports kept = p.content.newExports kept := by
  obtain ⟨s, hs, rfl⟩ := Option.map_eq_some_iff.mp h
  obtain ⟨hagain, hnew⟩ := Section.remainder_of_remainder hs
  refine ⟨?_, hnew⟩
  simp only [remainder, hagain, Option.map_some, Option.some.injEq]
  split <;> rfl

/-- Sections in canonical form all remain as they are. -/
theorem remainders_reduceOption (kept : List Export) (parts : List FramedSection) :
    remainders kept (remainders kept parts).reduceOption =
      (remainders kept parts).reduceOption.map some := by
  induction parts generalizing kept with
  | nil => rfl
  | cons p later ih =>
    rw [remainders]
    cases hp : p.remainder kept with
    | none =>
      -- what is dropped keeps no export, so later sections are reduced as before
      have hnone := Option.map_eq_none_iff.mp hp
      rw [List.reduceOption_cons_of_none, Section.newExports_of_remainder_eq_none hnone,
        List.append_nil]
      exact ih kept
    | some q =>
      obtain ⟨hagain, hnew⟩ := remainder_of_remainder hp
      rw [List.reduceOption_cons_of_some, remainders, hagain, hnew, ih]
      rfl

/-- The sections of a stream in canonical form, in frames. -/
def canonical (parts : List FramedSection) : List FramedSection :=
  (remainders [] parts).reduceOption

/-- The canonical form of the first sections is a beginning of that of all sections. -/
theorem canonical_prefix_append (parts later : List FramedSection) :
    canonical parts <+: canonical (parts ++ later) := by
  rw [canonical, canonical, remainders_append, List.reduceOption_append]
  exact List.prefix_append _ _

/-- Frames of the canonical form hold their sections exactly. -/
theorem exact_canonical (h : ∀ p ∈ parts, p.Exact) : ∀ q ∈ canonical parts, q.Exact :=
  exact_of_mem_remainders .nil h

/-- **The canonical form is its own canonical form.** -/
theorem canonical_canonical (parts : List FramedSection) :
    canonical (canonical parts) = canonical parts := by
  rw [canonical, canonical, remainders_reduceOption, List.reduceOption, List.filterMap_map]
  exact List.filterMap_some

end FramedSection

/-! ### Modules -/

namespace Module

/-- The canonical form of a module. -/
def canonical (m : Module) : Module :=
  { m with sections := (Section.remainders [] m.sections).reduceOption }

/-- The canonical form may be taken of the frames or of the module that they make. -/
theorem ofStream_canonical (stream : Header × List FramedSection) :
    ofStream (stream.1, FramedSection.canonical stream.2) = (ofStream stream).canonical := by
  rw [ofStream, FramedSection.canonical, FramedSection.map_content_reduceOption]
  rfl

theorem entries_canonical {α : Type} {view : Section → Option (List α)} (h : Section.Stable view)
    (m : Module) : m.canonical.entries view = m.entries view :=
  h.flatMap_remainders [] m.sections

/-- The exports of the canonical form are those kept from all export sections. -/
theorem exports_canonical (m : Module) :
    m.canonical.entries Section.exports? = Exports.select [] (m.entries Section.exports?) :=
  Section.flatMap_exports?_remainders [] m.sections

/-- The canonical form has neither a start section nor a custom section. -/
theorem not_has_canonical (m : Module) {kind : SectionKind} (h : kind = .start ∨ kind = .custom) :
    ¬m.canonical.Has kind := by
  rintro ⟨s, hs, rfl⟩
  obtain ⟨hstart, hcustom⟩ := Section.kind_of_mem_remainders hs
  exact h.elim hstart hcustom

end Module

end WasmContract
