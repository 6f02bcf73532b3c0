import WasmContract.Section.Names

/-!
# Section payloads

`Section.ofPayload` decodes the payload of a section by its identifier, and gives what the declared
content leaves of it. Custom sections use up their whole payload; a section of any other kind reads
just its entries, and what is to become of the rest is for the caller to say.
-/

namespace WasmContract

/-- Decodes the payload of a custom section. -/
def CustomSection.ofPayload (payload : List UInt8) : Logged DecodeError CustomSection := do
  let (name, content) ← .ofExcept (Reader.name payload)
  if name = NameSection.sectionName then
    let names ← NameSection.ofPayload content
    return .names names
  else
    return .raw name content

namespace Section

/-- Reads the content of a section of a given kind; a custom section has no reader, since its
content has no end of its own. -/
def reader? : SectionKind → Option (Reader Section)
  | .custom => none
  | .types => some (.types <$> Reader.vec FuncType.reader)
  | .imports => some (.imports <$> Reader.vec Import.reader)
  | .functions => some (.functions <$> Reader.vec Leb128.u32)
  | .tables => some (.tables <$> Reader.vec TableType.reader)
  | .memories => some (.memories <$> Reader.vec MemoryType.reader)
  | .globals => some (.globals <$> Reader.vec GlobalVariable.reader)
  | .exports => some (.exports <$> Reader.vec Export.reader)
  | .start => some (.start <$> Leb128.u32)
  | .elements => some (.elements <$> Reader.vec ElementSegment.reader)
  | .bodies => some (.bodies <$> Reader.vec FunctionBody.reader)
  | .data => some (.data <$> Reader.vec DataSegment.reader)

/-- Decodes the payload of a section, and gives the section with the bytes left over. -/
def ofPayload (id : UInt8) (payload : List UInt8) :
    Logged DecodeError (Section × List UInt8) :=
  match SectionKind.ofCode? id.toNat with
  | none => .fail (.invalidSectionId id)
  | some kind =>
    match reader? kind with
    | some reader => .ofExcept (reader payload)
    | none => do
      let content ← CustomSection.ofPayload payload
      return (.custom content, [])

end Section

end WasmContract
