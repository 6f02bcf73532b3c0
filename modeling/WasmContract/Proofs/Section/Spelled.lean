import WasmContract.Proofs.Module.Exact
import WasmContract.Proofs.Section.Decoded

/-!
# Entries with their names as found

Reading a name as text forgets by which bytes it was spelled. `SpelledImport` and `SpelledExport`
are entries that keep these bytes. With their names read as texts they are the entries of the module
(`Module.map_text_spelledImports`, `Module.map_text_spelledExports`).
-/

namespace WasmContract

open Reader

/-- An import with its names in bytes. -/
structure SpelledImport where
  /-- The bytes of the name of the host module. -/
  moduleName : List UInt8
  /-- The bytes of the name of the entity. -/
  fieldName : List UInt8
  /-- What is wanted. -/
  desc : ImportDesc
deriving DecidableEq, Repr, Inhabited

/-- An export with its name in bytes. -/
structure SpelledExport where
  /-- The bytes of the name. -/
  name : List UInt8
  /-- The kind of the entity. -/
  kind : ExternalKind
  /-- The index of the entity among those of its kind. -/
  index : UInt32
deriving DecidableEq, Repr, Inhabited

/-- Reads an import, and keeps its names in bytes. -/
def SpelledImport.reader : Reader SpelledImport := do
  let moduleName ← sized
  let fieldName ← sized
  let kind ← ExternalKind.reader
  let desc ← ImportDesc.reader kind
  return { moduleName, fieldName, desc }

/-- Reads an export, and keeps its name in bytes. -/
def SpelledExport.reader : Reader SpelledExport := do
  let name ← sized
  let kind ← ExternalKind.reader
  let index ← Leb128.u32
  return { name, kind, index }

/-- The import that is read, with its names as texts. -/
def SpelledImport.text (i : SpelledImport) : Import where
  moduleName := Text.Utf8.decode i.moduleName
  fieldName := Text.Utf8.decode i.fieldName
  desc := i.desc

/-- The export that is read, with its name as text. -/
def SpelledExport.text (e : SpelledExport) : Export where
  name := Text.Utf8.decode e.name
  kind := e.kind
  index := e.index

/-- The entries that a frame lists if it holds a section of the given kind. -/
def Frame.list {α : Type} (kind : SectionKind) (item : Reader α) (frame : Frame) : List α :=
  if frame.id = kind.code then
    match vec item frame.payload with
    | .ok (entries, _) => entries
    | .error _ => []
  else []

/-- The imports in the sections of a stream, with their names in bytes. -/
def spelledImports (bytes : List UInt8) : List SpelledImport :=
  (Framing.ofBytes (bytes.drop Header.size)).frames.flatMap
    (Frame.list .imports SpelledImport.reader)

/-- The exports in the sections of a stream, with their names in bytes. -/
def spelledExports (bytes : List UInt8) : List SpelledExport :=
  (Framing.ofBytes (bytes.drop Header.size)).frames.flatMap
    (Frame.list .exports SpelledExport.reader)

/-! ### Reading names as text -/

/-- Reading an import and its names as texts is reading it with its names in bytes first. -/
theorem SpelledImport.reader_text :
    SpelledImport.text <$> SpelledImport.reader = Import.reader := by
  simp [SpelledImport.reader, Import.reader, Reader.name, SpelledImport.text]

theorem SpelledExport.reader_text :
    SpelledExport.text <$> SpelledExport.reader = Export.reader := by
  simp [SpelledExport.reader, Export.reader, Reader.name, SpelledExport.text]

/-- A section of imports lists imports whose names are read as texts. -/
theorem SpelledImport.reader?_imports : Section.reader? .imports =
    some (.imports <$> vec (SpelledImport.text <$> SpelledImport.reader)) := by
  rw [SpelledImport.reader_text]
  rfl

theorem SpelledExport.reader?_exports : Section.reader? .exports =
    some (.exports <$> vec (SpelledExport.text <$> SpelledExport.reader)) := by
  rw [SpelledExport.reader_text]
  rfl

theorem Reader.many_map {α β : Type} (g : α → β) (item : Reader α) (n : Nat) :
    many (g <$> item) n = List.map g <$> many item n := by
  induction n with
  | zero => rfl
  | succ n ih => simp [many, ih]

theorem Reader.vec_map {α β : Type} (g : α → β) (item : Reader α) :
    vec (g <$> item) = List.map g <$> vec item := by
  simp [vec, many_map]

/-! ### The kind of a decoded section -/

namespace Section

/-- Custom sections alone have no reader. -/
theorem reader?_eq_none_iff {kind : SectionKind} : reader? kind = none ↔ kind = .custom := by
  cases kind <;> simp [reader?]

/-- A reader for sections of a kind gives sections of this kind. -/
theorem kind_of_reader? {kind : SectionKind} {reader : Reader Section}
    (h : reader? kind = some reader) : reader.Ensures fun s => s.kind = kind := by
  cases kind <;> simp only [reader?, reduceCtorEq, Option.some.injEq] at h <;> subst h <;>
    exact Ensures.map (.trivial _) fun _ _ => rfl

end Section

namespace Frame

variable {frame : Frame} {s : Section} {unread : List UInt8}

theorem decode_of_reader? {kind : SectionKind} {reader : Reader Section}
    (hid : frame.id = kind.code) (h : Section.reader? kind = some reader) :
    frame.decode = reader frame.payload := by
  rw [decode, Section.ofPayload, hid, SectionKind.ofCode?_eq_some_iff.mpr rfl]
  dsimp only
  rw [h]
  rfl

/-- The identifier of a frame is the code of the section that it holds. -/
theorem id_of_decode (h : frame.decode = .ok (s, unread)) : frame.id = s.kind.code := by
  unfold decode Section.ofPayload at h
  split at h
  · cases h
  · rename_i kind hkind
    rw [SectionKind.ofCode?_eq_some_iff, Int.natCast_inj, UInt8.toNat_inj] at hkind
    rw [hkind]
    -- a reader makes sections of its own kind, and there is one for every kind but custom sections
    split at h
    · rename_i reader hreader
      rw [Section.kind_of_reader? hreader h]
    · rename_i hreader
      obtain rfl := Section.reader?_eq_none_iff.mp hreader
      rw [Logged.outcome_bind, Except.bind_eq_ok_iff] at h
      obtain ⟨content, -, hpure⟩ := h
      cases hpure
      rfl

section List

variable {α β : Type} {kind : SectionKind} {item : Reader α} {g : α → β}
  {make : List β → Section}

/-- A frame lists what its payload is read for, if the entries of its section are made of items. -/
theorem vec_of_decode (hreader : Section.reader? kind = some (make <$> vec (g <$> item)))
    (hid : frame.id = kind.code) (h : frame.decode = .ok (s, unread)) :
    vec item frame.payload = .ok (frame.list kind item, unread) ∧
      s = make ((frame.list kind item).map g) := by
  rw [decode_of_reader? hid hreader, vec_map, map_eq_bind, map_eq_bind] at h
  obtain ⟨found, rest, hfound, hmake⟩ := bind_eq_ok_iff.mp h
  obtain ⟨entries, rest, hentries, hmap⟩ := bind_eq_ok_iff.mp hfound
  cases hmap
  cases hmake
  rw [list, if_pos hid, hentries]
  exact ⟨rfl, rfl⟩

/-- What a frame lists makes the entries of its section that are of the kind. -/
theorem map_list {view : Section → Option (List β)}
    (hreader : Section.reader? kind = some (make <$> vec (g <$> item)))
    (hview : ∀ entries, view (make entries) = some entries)
    (hother : ∀ s : Section, s.kind ≠ kind → view s = none)
    (h : frame.decode = .ok (s, unread)) : (frame.list kind item).map g = s.entries view := by
  by_cases hid : frame.id = kind.code
  · obtain ⟨-, rfl⟩ := vec_of_decode hreader hid h
    rw [Section.entries, hview]
    rfl
  · -- a frame of another kind lists nothing, and its section has no such entries
    have hkind : s.kind ≠ kind := by
      rintro rfl
      exact hid (id_of_decode h)
    rw [list, if_neg hid, Section.entries, hother s hkind]
    rfl

end List

/-- The imports of a decoded section are those that its frame lists, with their names as texts. -/
theorem map_text_imports (h : frame.decode = .ok (s, unread)) :
    (frame.list .imports SpelledImport.reader).map SpelledImport.text =
      s.entries Section.imports? := by
  refine map_list SpelledImport.reader?_imports (fun _ => rfl) (fun s hs => ?_) h
  cases s with
  | imports entries => exact absurd rfl hs
  | _ => rfl

/-- The exports of a decoded section are those that its frame lists, with their names as texts. -/
theorem map_text_exports (h : frame.decode = .ok (s, unread)) :
    (frame.list .exports SpelledExport.reader).map SpelledExport.text =
      s.entries Section.exports? := by
  refine map_list SpelledExport.reader?_exports (fun _ => rfl) (fun s hs => ?_) h
  cases s with
  | exports entries => exact absurd rfl hs
  | _ => rfl

end Frame

/-! ### Whole streams -/

namespace Module

variable {bytes : List UInt8} {m : Module}

/-- What the frames of a module list, section by section. -/
theorem map_flatMap_list {α β : Type} {list : Frame → List α} {g : α → β}
    {view : Section → Option (List β)}
    (hlist : ∀ (frame : Frame) s unread, frame.decode = .ok (s, unread) →
      (list frame).map g = s.entries view)
    (h : decode bytes = .ok m) :
    ((Framing.ofBytes (bytes.drop Header.size)).frames.flatMap list).map g = m.entries view := by
  rw [decode_eq, Except.map_eq_ok_iff] at h
  obtain ⟨⟨header, parts⟩, hstream, rfl⟩ := h
  obtain ⟨-, hframing, hdecode⟩ := framing_of_decodeStream hstream
  have hpart : ∀ p ∈ parts, (list p.frame).map g = p.content.entries view := by
    intro p hp
    obtain ⟨unread, hp⟩ := Frame.decodeLeniently_eq_ok_iff.mp (hdecode p hp)
    exact hlist p.frame p.content unread hp
  rw [hframing, entries, ofStream, List.flatMap_map, List.flatMap_map, List.map_flatMap]
  exact List.flatMap_congr hpart

/-- **The imports of a module** are those in its bytes, with their names read as texts. -/
theorem map_text_spelledImports (h : decode bytes = .ok m) :
    (spelledImports bytes).map SpelledImport.text = m.entries Section.imports? :=
  map_flatMap_list (fun _ _ _ => Frame.map_text_imports) h

/-- **The exports of a module** are those in its bytes, with their names read as texts. -/
theorem map_text_spelledExports (h : decode bytes = .ok m) :
    (spelledExports bytes).map SpelledExport.text = m.entries Section.exports? :=
  map_flatMap_list (fun _ _ _ => Frame.map_text_exports) h

end Module

end WasmContract
