import WasmContract.Proofs.Contract.Canonical
import WasmContract.Proofs.Section.ReadBack
import WasmContract.Proofs.Section.Spelled

/-!
# Exports that are written anew

An export section that is cut down to the exports that are kept is written with their names encoded
from texts. Since the name of a required export has one spelling, these are the bytes in which the
names were found: what the new section lists is a part of what the old one listed, byte for byte
(`Exports.select_spelled_sublist`, `FramedSection.spelledExports_remainders_sublist`).
-/

namespace WasmContract

open Reader

/-- An export with its name in the bytes that are written of it. -/
def Export.spelled (e : Export) : SpelledExport where
  name := Text.Utf8.encode e.name
  kind := e.kind
  index := e.index

namespace SpelledExport

variable {e : SpelledExport}

/-- The bytes of an export. -/
def encode (e : SpelledExport) : List UInt8 :=
  Writer.sized e.name ++ e.kind.code :: Leb128.encode e.index

theorem readsBack : SpelledExport.reader.ReadsBack encode fun _ => True := by
  intro e _ hlength
  simp only [encode, List.length_append] at hlength
  have hname := readsBack_sized (a := e.name) trivial (by omega)
  exact hname.bind <| (ExternalKind.reads_code e.kind).bind <|
    (Leb128.reads_u32_encode e.index).last _

/-- The name of a required export can only be spelled in one way. -/
theorem text_name_eq_iff {r : RequiredExport} :
    e.text.name = r.name ↔ e.name = Text.Utf8.ascii r.name :=
  Text.Utf8.decode_eq_ascii_iff (by cases r <;> decide)

/-- A required export is written as it was found. -/
theorem spelled_text (h : e.text.Required) : e.text.spelled = e := by
  obtain ⟨r, hname, -⟩ := h
  have hencode : Text.Utf8.encode e.text.name = e.name := by
    rw [hname, Text.Utf8.encode_eq_ascii (by cases r <;> decide), text_name_eq_iff.mp hname]
  rw [Export.spelled, hencode]
  rfl

end SpelledExport

namespace Exports

/-- The exports that are kept are part of the entries that were found, their names included. -/
theorem select_spelled_sublist (kept : List Export) (entries : List SpelledExport) :
    ((select kept (entries.map SpelledExport.text)).map Export.spelled).Sublist entries := by
  induction entries generalizing kept with
  | nil => exact .slnil
  | cons e later ih =>
    rw [List.map_cons, select]
    split
    · rename_i hnew
      -- an export that is kept is a required one, so it is spelled as it was found
      rw [List.map_cons, SpelledExport.spelled_text hnew.1]
      exact (ih _).cons_cons e
    · exact (ih kept).cons e

/-- Exports are written in the same bytes, whether their names are texts or bytes. -/
theorem vec_spelled (entries : List Export) :
    Writer.vec SpelledExport.encode (entries.map Export.spelled) =
      Writer.vec Export.encode entries := by
  rw [Writer.vec, List.length_map, List.flatMap_map]
  rfl

/-- What the frame lists that is written of exports. -/
theorem list_frame {entries : List Export} (h : Kept entries) :
    (Section.exports entries).frame.list .exports SpelledExport.reader =
      entries.map Export.spelled := by
  have hlength : (Writer.vec Export.encode entries).length < 2 ^ 32 :=
    length_encodePayload_lt h.portable.toWithinLimits
  have hread := SpelledExport.readsBack.vec ⟨_, rfl⟩ (a := entries.map Export.spelled)
    (fun _ _ => trivial) (vec_spelled entries ▸ hlength) []
  rw [vec_spelled, List.append_nil] at hread
  have hframe : (Section.exports entries).frame.id = SectionKind.exports.code := rfl
  rw [Frame.list, if_pos hframe, Section.frame, Section.encodePayload, hread]

end Exports

/-! ### Through a stream -/

namespace FramedSection

variable {kept : List Export} {parts : List FramedSection}

/-- The exports that a section lists in its frame, with their names in bytes. -/
def spelledExports (p : FramedSection) : List SpelledExport :=
  p.frame.list .exports SpelledExport.reader

/-- What remains of a section lists a part of what the section listed. -/
theorem spelledExports_remainder_sublist {p : FramedSection} (hp : p.Exact)
    (hkept : Exports.Kept kept) :
    ((p.remainder kept).toList.flatMap spelledExports).Sublist p.spelledExports := by
  rcases remainder_cases kept p with ⟨hs, -⟩ | ⟨hs, -⟩ | ⟨entries, hcontent, -, hs⟩
  · rw [hs]
    exact List.nil_sublist _
  · rw [hs, Option.toList_some, List.flatMap_singleton]
  · have hlist := Frame.map_text_exports hp.decode
    rw [hcontent] at hlist
    obtain rfl : p.spelledExports.map SpelledExport.text = entries := hlist
    have hnew := Exports.list_frame (hkept.select (p.spelledExports.map SpelledExport.text))
    rw [hs, Option.toList_some, List.flatMap_singleton, spelledExports, hnew]
    exact Exports.select_spelled_sublist kept p.spelledExports

/-- **What remains of all sections** lists a part of what they listed, in the same order. -/
theorem spelledExports_remainders_sublist (h : ∀ p ∈ parts, p.Exact) (hkept : Exports.Kept kept) :
    ((remainders kept parts).reduceOption.flatMap spelledExports).Sublist
      (parts.flatMap spelledExports) := by
  induction parts generalizing kept with
  | nil => exact .slnil
  | cons p later ih =>
    obtain ⟨hp, hlater⟩ := List.forall_mem_cons.mp h
    rw [remainders, reduceOption_cons, List.flatMap_append, List.flatMap_cons]
    exact (spelledExports_remainder_sublist hp hkept).append (ih hlater (hkept.append_select _))

end FramedSection

end WasmContract
